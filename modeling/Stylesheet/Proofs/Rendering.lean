import Stylesheet.Proofs.Preservation
import Stylesheet.Rendering

/-!
# What rendering keeps

Rendering is written over an evaluator and over a way to render nested blocks, like the rules of
evaluation, and the same things can be said of it.

* **Its steps** (`Block.renderWith_eq`, `Block.renderRule_cases`): replace imports, expand calls, take
  the rules one by one; a rule prints something that is known at once, or it is a nested block, or it
  is a line that is evaluated and printed.
* **Blame** (`Block.render_tolerates`): in trees of a strict grammar, a rendering that stops does so
  for a fault of the style sheet or for lack of fuel. What is printed has been evaluated, and what is
  evaluated can be printed.
-/

namespace Stylesheet

/-! ## The steps of rendering

Rendering is defined in one piece. Here it is taken apart into steps that can be spoken of one by one, and
every later statement about rendering starts from these. -/

/-- The block that is rendered: the root with its imports replaced, any other block itself. -/
def Block.source (env : Env) (b : Block) : EvalM Block :=
  if b.isRoot then b.expandImports env else pure b

/-- The paths of the blocks inside a block. -/
def Block.innerPaths (context : List Path) (b : Block) : List Path :=
  if b.isRoot then context else Path.combine context b.selectors

/-- Rendering in its steps. A block without rules is no exception: the steps do nothing for it. -/
lemma Block.renderWith_eq (ev : Evaluator) (inner : Env → Scope → List Path → Block → EvalM String)
    (env : Env) (scope : Scope) (context : List Path) (b : Block) :
    Block.renderWith ev inner env scope context b = do
      let source ← b.source env
      let frame ← source.expandCalls ev env scope
      let pieces ← frame.rules.mapM (Block.renderRule ev
        (inner env (frame :: scope) (b.innerPaths context)) env (frame :: scope) frame.isRoot)
      return Piece.assemble frame.isRoot (b.innerPaths context) pieces := by
  obtain ⟨stamp, selectors, rules, kind⟩ := b
  cases rules with
  | nil => cases kind <;> rfl
  | cons rule rest => cases kind <;> rfl

/-- A definition prints nothing. -/
lemma Block.renderRule_definition {child : Block} (h : child.isDefinition = true) (ev : Evaluator)
    (inner : Block → EvalM String) (env : Env) (scope : Scope) (isRoot : Bool) :
    Block.renderRule ev inner env scope isRoot (.block child) = pure .nothing := by
  rw [Block.renderRule, if_pos h]

/-- Any other block prints after the lines of the block around it. -/
lemma Block.renderRule_nested {child : Block} (h : child.isDefinition = false) (ev : Evaluator)
    (inner : Block → EvalM String) (env : Env) (scope : Scope) (isRoot : Bool) :
    Block.renderRule ev inner env scope isRoot (.block child) = Piece.nested <$> inner child := by
  rw [Block.renderRule, h, map_eq_pure_bind]
  rfl

/-- The declaration of a variable prints nothing. -/
lemma Block.renderRule_variable {d : Declaration} (h : d.isVariable = true) (ev : Evaluator)
    (inner : Block → EvalM String) (env : Env) (scope : Scope) (isRoot : Bool) :
    Block.renderRule ev inner env scope isRoot (.declaration d) = pure .nothing := by
  rw [Block.renderRule, if_pos h]

/-- The declaration of a property prints as a line. -/
lemma Block.renderRule_property {d : Declaration} (h : d.isVariable = false) (ev : Evaluator)
    (inner : Block → EvalM String) (env : Env) (scope : Scope) (isRoot : Bool) :
    Block.renderRule ev inner env scope isRoot (.declaration d) =
      Block.renderLine ev env scope (.declaration d) := by
  rw [Block.renderRule, h]
  rfl

/-- What becomes of a rule: its piece is known at once, or it is a block that is rendered, or it is
evaluated and printed as a line. -/
lemma Block.renderRule_cases (isRoot : Bool) (r : Node) :
    (∃ piece, ∀ ev inner env scope, Block.renderRule ev inner env scope isRoot r = pure piece) ∨
    (∃ child, r = .block child ∧ child.isDefinition = false ∧ ∀ ev inner env scope,
      Block.renderRule ev inner env scope isRoot r = Piece.nested <$> inner child) ∨
    (r.shape.isBlock = false ∧ ∀ ev inner env scope,
      Block.renderRule ev inner env scope isRoot r = Block.renderLine ev env scope r) := by
  cases r with
  | block child =>
    cases hdef : child.isDefinition with
    | true =>
      exact .inl ⟨.nothing, fun ev inner env scope => renderRule_definition hdef ev inner env scope _⟩
    | false =>
      exact .inr (.inl ⟨child, rfl, hdef, fun ev inner env scope =>
        renderRule_nested hdef ev inner env scope _⟩)
  | comment text =>
    cases isRoot with
    | true => exact .inl ⟨.nested (text ++ "\n"), fun _ _ _ _ => rfl⟩
    | false => exact .inr (.inr ⟨rfl, fun _ _ _ _ => rfl⟩)
  | declaration d =>
    cases hvar : d.isVariable with
    | true =>
      exact .inl ⟨.nothing, fun ev inner env scope => renderRule_variable hvar ev inner env scope _⟩
    | false =>
      exact .inr (.inr ⟨rfl, fun ev inner env scope => renderRule_property hvar ev inner env scope _⟩)
  | _ => exact .inr (.inr ⟨rfl, fun _ _ _ _ => rfl⟩)

/-! ## Imports

Imports bring in trees from the environment, so the environment has to keep to the grammar as well. -/

/-- All trees that imports stand for keep to the grammar. -/
def Env.Serves (g : Grammar) (env : Env) : Prop :=
  ∀ path tree, env.importTree? path = some tree → tree.Conforms g

/-- Rules are replaced by rules of the grammar, if imports stand for trees of it. -/
lemma Imports.expandWith_proper {g : Grammar} {env : Env} (henv : env.Serves g)
    {serve : String → Block → Except EvalError (List Node)}
    (hserve : ∀ path tree, tree.Conforms g →
      Proper (fun rules => ∀ r ∈ rules, r.Conforms g .rule) (serve path tree))
    {rules : List Node} (hrules : ∀ r ∈ rules, r.Conforms g .rule) :
    Proper (fun rules => ∀ r ∈ rules, r.Conforms g .rule) (Imports.expandWith env serve rules) := by
  unfold Imports.expandWith
  refine (Proper.mapM (Q := fun part => ∀ r ∈ part, r.Conforms g .rule) fun rule hrule => ?_).bind
    fun parts hparts => .ok ?_
  · split
    · refine .ok fun r hr => ?_
      rw [List.mem_singleton.mp hr]
      exact hrules rule hrule
    · split
      · exact .error rfl
      · next path tree htree => exact hserve _ _ (henv _ _ htree)
  · intro r hr
    obtain ⟨part, hpart, hr⟩ := List.mem_flatten.mp hr
    exact hparts part hpart r hr

/-- Replacing imports gives rules of the grammar, or an import is at fault. -/
lemma Imports.expandRules_proper {g : Grammar} {env : Env} (henv : env.Serves g) (levels : Nat)
    {rules : List Node} (hrules : ∀ r ∈ rules, r.Conforms g .rule) :
    Proper (fun rules => ∀ r ∈ rules, r.Conforms g .rule) (Imports.expandRules env levels rules) := by
  induction levels generalizing rules with
  | zero => exact Imports.expandWith_proper henv (fun _ _ _ => .error rfl) hrules
  | succ levels ih =>
    exact Imports.expandWith_proper henv (fun _ _ htree => ih fun _ hr => htree.of_mem_rules hr) hrules

/-- The block that is rendered keeps to the grammar, or an import is at fault. -/
lemma Block.source_respects {g : Grammar} {env : Env} (henv : env.Serves g) {b : Block}
    (hb : b.Conforms g) :
    Ensures (b.source env) (Block.Conforms g) fun e => e.isUserError = true := by
  unfold Block.source
  split
  · unfold Block.expandImports
    split
    · have hrules := Imports.expandRules_proper henv (env.options.maxDepth - env.depth)
        fun r hr => hb.of_mem_rules hr
      refine .bind (P := fun rules => ∀ r ∈ rules, r.Conforms g .rule)
        (.liftExcept (fun rules h => ?_) fun e h => ?_) fun rules hconforms => ?_
      · rw [h] at hrules
        cases hrules with
        | ok hconforms => exact hconforms
      · rw [h] at hrules
        cases hrules with
        | error he => exact he
      · refine .liftState ((b.rebuilt_spec rules).mono fun c hc => ?_)
        obtain ⟨hkind, -, hcrules⟩ := hc
        exact hb.of_rules hkind fun r hr => hconforms r (hcrules ▸ hr)
    · exact .pure hb
  · exact .pure hb

/-! ## Blame -/

section blame

variable {g : Grammar} {ev : Evaluator} {env : Env} {scope : Scope}

/-- A rule that is no block and no mixin call prints as a line. -/
lemma Block.renderLine_tolerates (hev : ev.Respects g) (hscope : Scope.Conforms g scope) {r : Node}
    (hr : r.Conforms g .rule) (hblock : r.shape.isBlock = false) (hmixin : r.shape.isMixin = false) :
    Ensures (Block.renderLine ev env scope r) (fun _ => True) g.Tolerates := by
  unfold Block.renderLine
  refine (hev.node hscope hr fun _ => hmixin).bind fun v hv => ?_
  refine .bind (P := fun _ => True) (.liftExcept (fun _ _ => trivial) fun e he hg => ?_)
    fun text _ => .pure trivial
  have hvblock : v.shape.isBlock = false := by
    rcases hv.origin with hvalue | hshape
    · exact hvalue.isBlock_eq_false hg
    · rw [hshape, hblock]
  obtain ⟨text, htext⟩ := hv.finished.exists_toCss hg hv.conforms hvblock
  rw [he] at htext
  cases htext

/-- The rules for rendering stop for causes only that the grammar tolerates. -/
lemma Block.renderWith_tolerates (hev : ev.Respects g)
    {inner : Env → Scope → List Path → Block → EvalM String}
    (hinner : ∀ scope context b, Scope.Conforms g scope → b.Conforms g →
      Ensures (inner env scope context b) (fun _ => True) g.Tolerates)
    (henv : env.Serves g) (hscope : Scope.Conforms g scope) (context : List Path) {b : Block}
    (hb : b.Conforms g) :
    Ensures (Block.renderWith ev inner env scope context b) (fun _ => True) g.Tolerates := by
  rw [Block.renderWith_eq]
  have hsource := Block.source_respects henv hb
  refine .bind (P := Block.Conforms g)
    ⟨hsource.value, fun he => Grammar.tolerates_of_isUserError (hsource.cause he)⟩
    fun source hsource => ?_
  refine (Block.expandCalls_respects hev hscope hsource).bind fun frame hframe => ?_
  have hinside : Scope.Conforms g (frame :: scope) := hscope.cons hframe.conforms
  refine (Ensures.mapM (R := fun _ => True) fun r hr => ?_).bind fun pieces _ => .pure trivial
  have hrule := hframe.conforms.of_mem_rules hr
  rcases Block.renderRule_cases frame.isRoot r with
    ⟨piece, hpiece⟩ | ⟨child, rfl, -, hnested⟩ | ⟨hblock, hline⟩
  · rw [hpiece]
    exact .pure trivial
  · rw [hnested, map_eq_pure_bind]
    exact (hinner _ _ child hinside hrule.of_block).bind fun _ _ => .pure trivial
  · rw [hline]
    exact Block.renderLine_tolerates hev hinside hrule hblock (hframe.isMixin_eq_false hr)

/-- **Blame.** Rendering a tree of the grammar stops only for causes that the grammar tolerates. -/
theorem Block.render_tolerates (fuel : Nat) (henv : env.Serves g) (hscope : Scope.Conforms g scope)
    (context : List Path) {b : Block} (hb : b.Conforms g) :
    Ensures (Block.render fuel env scope context b) (fun _ => True) g.Tolerates := by
  induction fuel generalizing scope context b with
  | zero => exact .throw g.tolerates_outOfFuel
  | succ fuel ih =>
    exact Block.renderWith_tolerates (evaluator_respects g fuel)
      (fun scope context b hscope hb => ih hscope context hb) henv hscope context hb

end blame

end Stylesheet
