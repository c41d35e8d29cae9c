import Stylesheet.Error
import Stylesheet.Lookup.Search
import Stylesheet.Proofs.Anatomy

/-!
# Which nodes may stand where

Any node may stand anywhere in a tree. Many statements hold only for trees in which nodes stand where
an author would write them, or only for some kinds of selectors. A `Grammar` says which shapes are
allowed in value position and which in rule position, and `Conforms` says that a tree keeps to it
everywhere: in values, rules, arguments, defaults and captured blocks.

What a grammar must allow is little: evaluation turns values into texts, numbers and colours, a value
may come to stand where a rule stood that was evaluated, and bound parameters become declarations.
With these, evaluation keeps every grammar (`evaluator_respects`).

A grammar is *strict* if it allows neither blocks nor mixin calls as values. Blame for what goes wrong
in a strict tree is never the evaluator's: `Grammar.Tolerates` lists the causes that may occur.
-/

namespace Stylesheet

/-- Where a node stands. -/
inductive Place where
  /-- As an item, operand, argument, default or value of a declaration. -/
  | value
  /-- As a rule of a block. -/
  | rule
  deriving DecidableEq

/-- Which shapes of nodes may stand where. -/
structure Grammar where
  /-- Whether a shape may stand in a place. -/
  allows : Place → Shape → Prop
  /-- Texts may stand anywhere. -/
  text : ∀ p, allows p .text
  /-- Numbers may stand anywhere. -/
  number : ∀ p, allows p .number
  /-- Colours may stand anywhere. -/
  color : ∀ p, allows p .color
  /-- Declarations may stand among rules. -/
  declaration : allows .rule .declaration
  /-- What may stand as a value may stand among rules. -/
  rule_of_value : ∀ {s}, allows .value s → allows .rule s

mutual

/-- The node keeps to the grammar in the place where it stands. -/
inductive Node.Conforms (g : Grammar) : Place → Node → Prop
  | intro {p : Place} {n : Node} (allowed : g.allows p n.shape)
      (values : ∀ k ∈ n.values, Node.Conforms g .value k)
      (block : ∀ b, n = .block b → Block.Conforms g b) : Node.Conforms g p n

/-- The block keeps to the grammar in its rules, its defaults and what it has captured. -/
inductive Block.Conforms (g : Grammar) : Block → Prop
  | intro {b : Block} (rules : ∀ r ∈ b.rules, Node.Conforms g .rule r)
      (defaults : ∀ d ∈ b.defaults, Node.Conforms g .value d)
      (captures : ∀ c ∈ b.captures, Block.Conforms g c) : Block.Conforms g b

end

/-- All blocks of a scope keep to the grammar. -/
def Scope.Conforms (g : Grammar) (scope : Scope) : Prop :=
  ∀ b ∈ scope, b.Conforms g

namespace Node.Conforms

variable {g : Grammar} {p : Place} {n : Node}

/-- A node that keeps to a grammar is of a shape that is allowed where it stands. -/
lemma allowed (h : n.Conforms g p) : g.allows p n.shape := by
  cases h with
  | intro allowed _ _ => exact allowed

/-- The parts of a node keep to the grammar as values. -/
lemma of_mem_values (h : n.Conforms g p) {k : Node} (hk : k ∈ n.values) : k.Conforms g .value := by
  cases h with
  | intro _ values _ => exact values k hk

/-- A block that stands as a node keeps to the grammar as a block. -/
lemma of_block {b : Block} (h : (Node.block b).Conforms g p) : b.Conforms g := by
  cases h with
  | intro _ _ block => exact block b rfl

/-- Only what stands at the node itself depends on the place. -/
lemma of_allows {q : Place} (h : n.Conforms g p) (hq : g.allows q n.shape) : n.Conforms g q := by
  cases h with
  | intro _ values block => exact .intro hq values block

/-- A value may stand in every place. -/
lemma at_place (h : n.Conforms g .value) (q : Place) : n.Conforms g q := by
  cases q with
  | value => exact h
  | rule => exact h.of_allows (g.rule_of_value h.allowed)

/-- A text is allowed everywhere. -/
lemma text (value : String) : (Node.text value).Conforms g p :=
  .intro (g.text p) (by simp [Node.values]) fun _ hb => by cases hb

/-- A number is allowed everywhere. -/
lemma number (q : Quantity) : (Node.number q).Conforms g p :=
  .intro (g.number p) (by simp [Node.values]) fun _ hb => by cases hb

/-- A colour is allowed everywhere. -/
lemma color (c : Color) : (Node.color c).Conforms g p :=
  .intro (g.color p) (by simp [Node.values]) fun _ hb => by cases hb

/-- A variable keeps to the grammar where variables are allowed. -/
lemma var (hp : g.allows p .var) (name : String) : (Node.var name).Conforms g p :=
  .intro hp (by simp [Node.values]) fun _ hb => by cases hb

/-- An import keeps to the grammar where that path may be imported. -/
lemma atImport {path : String} (hp : g.allows p (.atImport path)) :
    (Node.atImport path).Conforms g p :=
  .intro hp (by simp [Node.values]) fun _ hb => by cases hb

/-- An expression keeps to the grammar if its items do. -/
lemma expression {items : List Node} (hp : g.allows p .expression)
    (h : ∀ i ∈ items, i.Conforms g .value) : (Node.expression items).Conforms g p :=
  .intro hp h fun _ hb => by cases hb

/-- A list keeps to the grammar if its items do. -/
lemma list {items : List Node} (hp : g.allows p .list)
    (h : ∀ i ∈ items, i.Conforms g .value) : (Node.list items).Conforms g p :=
  .intro hp h fun _ hb => by cases hb

/-- A declaration keeps to the grammar if its value does. -/
lemma declaration {d : Declaration} (hp : g.allows p .declaration)
    (h : d.value.Conforms g .value) : (Node.declaration d).Conforms g p := by
  refine .intro hp ?_ fun _ hb => by cases hb
  intro k hk
  simp only [Node.values, List.mem_cons, List.not_mem_nil, or_false] at hk
  exact hk ▸ h

/-- A block keeps to the grammar where blocks of its kind are allowed. -/
lemma block {b : Block} (hp : g.allows p (.block b.isRoot)) (h : b.Conforms g) :
    (Node.block b).Conforms g p := by
  refine .intro hp (by simp) ?_
  intro c hc
  cases hc
  exact h

end Node.Conforms

namespace Block.Conforms

variable {g : Grammar} {b : Block}

/-- A block without parameter list keeps to the grammar if its rules do. -/
lemma without_params (hkind : b.kind.params? = none) (hrules : ∀ r ∈ b.rules, r.Conforms g .rule) :
    b.Conforms g := by
  refine .intro hrules ?_ ?_
  · simp [Block.defaults, hkind]
  · simp [Block.captures, BlockKind.closure?_eq_none hkind]

/-- The rules of a block keep to the grammar. -/
lemma of_mem_rules (h : b.Conforms g) {r : Node} (hr : r ∈ b.rules) : r.Conforms g .rule := by
  cases h with
  | intro rules _ _ => exact rules r hr

/-- The defaults of its parameters keep to the grammar as values. -/
lemma of_mem_defaults (h : b.Conforms g) {d : Node} (hd : d ∈ b.defaults) :
    d.Conforms g .value := by
  cases h with
  | intro _ defaults _ => exact defaults d hd

/-- The blocks that a definition has captured keep to the grammar. -/
lemma captures (h : b.Conforms g) : Scope.Conforms g b.captures := by
  cases h with
  | intro _ _ captures => exact captures

/-- The default of a parameter, as it is met when arguments are bound. -/
lemma of_default (h : b.Conforms g) {params : List Parameter} (hparams : b.kind.params? = some params)
    {p : Parameter} (hp : p ∈ params) {d : Node} (hd : p.default? = some d) :
    d.Conforms g .value := by
  refine h.of_mem_defaults (List.mem_filterMap.mpr ⟨p, ?_, hd⟩)
  rw [hparams]
  exact hp

/-- A block with other rules that keep to the grammar, and of the same kind, keeps to it. -/
lemma of_rules {c : Block} (h : b.Conforms g) (hkind : c.kind = b.kind)
    (hrules : ∀ r ∈ c.rules, r.Conforms g .rule) : c.Conforms g := by
  refine .intro hrules ?_ ?_
  · intro d hd
    rw [Block.defaults, hkind] at hd
    exact h.of_mem_defaults hd
  · intro d hd
    rw [Block.captures, hkind] at hd
    exact h.captures d hd

/-- The declarations among the rules hold values that keep to the grammar. -/
lemma declaration_value (h : b.Conforms g) {d : Declaration}
    (hd : d ∈ b.rules.filterMap Node.declaration?) : d.value.Conforms g .value := by
  obtain ⟨r, hr, hrd⟩ := List.mem_filterMap.mp hd
  cases r with
  | declaration d' =>
    cases hrd
    exact (h.of_mem_rules hr).of_mem_values List.mem_cons_self
  | _ => cases hrd

/-- The value of a variable that a block declares keeps to the grammar. -/
lemma lookup {d : Declaration} {name : String} (h : b.Conforms g) (hd : b.lookup? name = some d) :
    d.value.Conforms g .value :=
  h.declaration_value (List.mem_reverse.mp (List.mem_of_find?_eq_some hd))

/-- The value of a property that a block declares keeps to the grammar. -/
lemma lastNamed {d : Declaration} {name : String} (h : b.Conforms g)
    (hd : b.lastNamed? name = some d) : d.value.Conforms g .value :=
  h.declaration_value (List.mem_reverse.mp (List.mem_of_find?_eq_some hd))

end Block.Conforms

namespace Scope.Conforms

variable {g : Grammar} {scope : Scope}

/-- A scope with one more block of the grammar. -/
lemma cons {b : Block} (hb : b.Conforms g) (h : Scope.Conforms g scope) :
    Scope.Conforms g (b :: scope) := by
  intro c hc
  rcases List.mem_cons.mp hc with rfl | hc
  · exact hb
  · exact h c hc

/-- A scope inside another one. -/
lemma append {outer : Scope} (h : Scope.Conforms g scope) (houter : Scope.Conforms g outer) :
    Scope.Conforms g (scope ++ outer) := by
  intro c hc
  rcases List.mem_append.mp hc with hc | hc
  · exact h c hc
  · exact houter c hc

/-- The value of a variable that is found in a scope keeps to the grammar. -/
lemma lookup {d : Declaration} {name : String} (h : Scope.Conforms g scope)
    (hd : scope.lookup? name = some d) : d.value.Conforms g .value := by
  obtain ⟨b, hb, hd⟩ := List.exists_of_findSome?_eq_some hd
  exact (h b hb).lookup hd

end Scope.Conforms

/-! ## Grammars that allow more -/

/-- A tree keeps to every grammar that allows more. -/
theorem conforms_mono {g g' : Grammar} (h : ∀ p s, g.allows p s → g'.allows p s) :
    (∀ n : Node, ∀ p, n.Conforms g p → n.Conforms g' p) ∧
      ∀ b : Block, b.Conforms g → b.Conforms g' := by
  refine Node.joint_induction ?_ ?_
  · intro n hvalues hblock p hn
    refine .intro (h p _ hn.allowed) (fun k hk => hvalues k hk .value (hn.of_mem_values hk)) ?_
    rintro b rfl
    exact hblock b rfl hn.of_block
  · intro b hrules hdefaults hcaptures hb
    exact .intro (fun r hr => hrules r hr .rule (hb.of_mem_rules hr))
      (fun d hd => hdefaults d hd .value (hb.of_mem_defaults hd))
      fun c hc => hcaptures c hc (hb.captures c hc)

/-- Every node may stand anywhere. -/
def Grammar.any : Grammar where
  allows _ _ := True
  text _ := trivial
  number _ := trivial
  color _ := trivial
  declaration := trivial
  rule_of_value := fun h => h

/-- Every tree keeps to the grammar that allows everything. -/
theorem conforms_any : (∀ n p, Node.Conforms .any p n) ∧ ∀ b, Block.Conforms .any b := by
  refine Node.joint_induction (P := fun n => ∀ p, Node.Conforms .any p n) ?_ ?_
  · intro n hvalues hblock p
    exact .intro trivial (fun k hk => hvalues k hk .value) hblock
  · intro b hrules hdefaults hcaptures
    exact .intro (fun r hr => hrules r hr .rule) (fun d hd => hdefaults d hd .value) hcaptures

/-- Every scope keeps to the grammar that allows everything. -/
lemma Scope.conforms_any (scope : Scope) : Scope.Conforms .any scope :=
  fun b _ => Stylesheet.conforms_any.2 b

/-! ## Strict grammars and blame

Values are printed and computed with, and a block or a mixin call is good for neither. Where neither
stands as a value, the evaluator is never brought to the point where it has to blame itself. -/

/-- Neither a block nor a mixin call may stand as a value. -/
def Grammar.Strict (g : Grammar) : Prop :=
  ∀ s, g.allows .value s → s.isBlock = false ∧ s.isMixin = false

/-- A grammar that allows everything is not strict. -/
lemma Grammar.not_strict_any : ¬Grammar.any.Strict := by
  intro hstrict
  cases (hstrict (.mixin ⟨[]⟩) trivial).2

/-- In a strict grammar no value is a mixin call. -/
lemma Node.Conforms.isMixin_eq_false {g : Grammar} {n : Node} (h : n.Conforms g .value)
    (hg : g.Strict) : n.shape.isMixin = false :=
  (hg _ h.allowed).2

/-- In a strict grammar no value is a block. -/
lemma Node.Conforms.isBlock_eq_false {g : Grammar} {n : Node} (h : n.Conforms g .value)
    (hg : g.Strict) : n.shape.isBlock = false :=
  (hg _ h.allowed).1

/-- A cause for which the evaluator is not to blame: a fault of the style sheet, or the bound on the
evaluator's own recursion. -/
def EvalError.Blameless (e : EvalError) : Prop :=
  e.isUserError = true ∨ e = .outOfFuel

/-- The causes that may occur in trees of the grammar. -/
def Grammar.Tolerates (g : Grammar) (e : EvalError) : Prop :=
  g.Strict → e.Blameless

/-- Faults of the style sheet are tolerated in every grammar. -/
lemma Grammar.tolerates_of_isUserError {g : Grammar} {e : EvalError} (h : e.isUserError = true) :
    g.Tolerates e :=
  fun _ => .inl h

/-- So is the lack of fuel: the grammar says nothing about how much there is. -/
lemma Grammar.tolerates_outOfFuel (g : Grammar) : g.Tolerates .outOfFuel :=
  fun _ => .inr rfl

end Stylesheet
