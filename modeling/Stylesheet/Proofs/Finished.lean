import Stylesheet.Proofs.Anatomy

/-!
# Evaluated trees

Three predicates say that nothing is left to evaluate in a node.

* `Node.Resolved` is the one that a reader of a result cares about: no variable, operation, function
  call, accessor or mixin call occurs in the node, except inside mixin definitions, whose rules and
  defaults are kept as they were written until a call asks for them.
* `Node.Finished` is the one that evaluation keeps, and it is a little stronger: a definition that
  does *not* stand among the rules of a block, but in a value, has been evaluated like any other
  block. A definition among rules is exempt, since evaluating the block around it only captures it.
* `Node.Legible` is about a node that prints by itself: there is no block in it at all.
-/

namespace Stylesheet

/-- Nothing is left to evaluate outside mixin definitions. -/
inductive Node.Resolved : Node → Prop
  | intro {n : Node} (notPending : n.shape.isPending = false)
      (values : ∀ k ∈ n.values, Node.Resolved k)
      (rules : ∀ b, n = .block b → b.isDefinition = false → ∀ r ∈ b.rules, Node.Resolved r) :
      Node.Resolved n

/-- Nothing is left to evaluate, apart from definitions that stand among rules. -/
inductive Node.Finished : Node → Prop
  | intro {n : Node} (notPending : n.shape.isPending = false)
      (values : ∀ k ∈ n.values, Node.Finished k)
      (rules : ∀ b, n = .block b → ∀ r ∈ b.rules, r.isDefinition = false → Node.Finished r) :
      Node.Finished n

/-- Nothing is left to evaluate, and there is no block in the node. -/
inductive Node.Legible : Node → Prop
  | intro {n : Node} (notPending : n.shape.isPending = false) (notBlock : n.shape.isBlock = false)
      (values : ∀ k ∈ n.values, Node.Legible k) : Node.Legible n

/-- A rule of an evaluated block: a definition, or a finished node. -/
def Node.FinishedRule (r : Node) : Prop :=
  r.isDefinition = false → r.Finished

/-- All rules of a block are evaluated. -/
def Block.Finished (b : Block) : Prop :=
  ∀ r ∈ b.rules, r.FinishedRule

namespace Node.Finished

variable {n : Node}

/-- Nothing is left to do with a finished node itself. -/
lemma notPending (h : n.Finished) : n.shape.isPending = false := by
  cases h with
  | intro notPending _ _ => exact notPending

/-- The parts of a finished node are finished. -/
lemma of_mem_values (h : n.Finished) {k : Node} (hk : k ∈ n.values) : k.Finished := by
  cases h with
  | intro _ values _ => exact values k hk

/-- A finished node may stand among the rules of an evaluated block. -/
lemma finishedRule (h : n.Finished) : n.FinishedRule :=
  fun _ => h

/-- A value that stands for itself is finished. -/
lemma of_isLiteral (h : n.isLiteral = true) : n.Finished := by
  refine .intro ?_ ?_ ?_
  · cases n <;> first | rfl | cases h
  · intro k hk
    rw [Node.values_of_isLiteral h] at hk
    cases hk
  · intro b hb
    subst hb
    cases h

/-- An expression of finished items is finished. -/
lemma expression {items : List Node} (h : ∀ i ∈ items, i.Finished) :
    (Node.expression items).Finished :=
  .intro rfl h fun _ hb => by cases hb

/-- A list of finished items is finished. -/
lemma list {items : List Node} (h : ∀ i ∈ items, i.Finished) : (Node.list items).Finished :=
  .intro rfl h fun _ hb => by cases hb

/-- A declaration of a finished value is finished. -/
lemma declaration {d : Declaration} (h : d.value.Finished) : (Node.declaration d).Finished := by
  refine .intro rfl ?_ fun _ hb => by cases hb
  intro k hk
  simp only [Node.values, List.mem_cons, List.not_mem_nil, or_false] at hk
  exact hk ▸ h

/-- A block whose rules are all evaluated is finished. -/
lemma block {b : Block} (h : b.Finished) : (Node.block b).Finished := by
  refine .intro rfl (by simp) ?_
  intro c hc r hr
  cases hc
  exact h r hr

/-- A text is finished. -/
lemma text (value : String) : (Node.text value).Finished :=
  of_isLiteral rfl

/-- An import is finished: evaluation leaves it to rendering. -/
lemma atImport (path : String) : (Node.atImport path).Finished :=
  .intro rfl (by simp [Node.values]) fun _ hb => by cases hb

/-- What evaluation keeps is enough for a reader of the result. -/
theorem resolved (h : n.Finished) : n.Resolved := by
  induction h with
  | @intro n notPending _ _ ihValues ihRules =>
    refine .intro notPending ihValues ?_
    intro b hb _ r hr
    cases hdef : r.isDefinition with
    | false => exact ihRules b hb r hr hdef
    | true =>
      -- a definition among the rules: nothing inside it is looked at
      cases r with
      | block c =>
        refine .intro rfl (by simp) ?_
        intro c' hc' hplain
        cases hc'
        rw [Node.isDefinition] at hdef
        rw [hdef] at hplain
        cases hplain
      | _ => cases hdef

end Node.Finished

namespace Node.Legible

variable {n : Node}

/-- Nothing is left to do with a legible node. -/
lemma notPending (h : n.Legible) : n.shape.isPending = false := by
  cases h with
  | intro notPending _ _ => exact notPending

/-- A legible node is no block. -/
lemma notBlock (h : n.Legible) : n.shape.isBlock = false := by
  cases h with
  | intro _ notBlock _ => exact notBlock

end Node.Legible

end Stylesheet
