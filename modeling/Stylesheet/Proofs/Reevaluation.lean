import Stylesheet.Proofs.Erasure
import Stylesheet.Proofs.Fuel
import Stylesheet.Proofs.Preservation

/-!
# Evaluated trees evaluate to themselves

* **Nothing is left** (`Node.Finished.yields_self`): a finished node, evaluated anywhere, yields
  itself. The environment does not matter, not even the depth limit, and neither does the scope: what
  is finished asks for nothing. The blocks in the result have new stamps, and definitions that had
  not captured their surroundings have captured the new ones.
* **Evaluation is idempotent** (`Node.evaluate_evaluate`), since evaluation gives finished nodes.
-/

namespace Stylesheet

/-! ## Blocks without calls -/

/-- A block without calls is expanded as it is. -/
lemma Block.expandCalls_of_no_calls (ev : Evaluator) (env : Env) (scope : Scope) {b : Block}
    (h : ∀ r ∈ b.rules, r.shape.isMixin = false) : b.expandCalls ev env scope = pure b :=
  Block.expandCallsFrom_of_no_calls ev env scope b [] h

/-- A finished block has no calls left to expand. -/
lemma Block.Finished.expandCalls {b : Block} (h : b.Finished) (ev : Evaluator) (env : Env)
    (scope : Scope) : b.expandCalls ev env scope = pure b :=
  Block.expandCalls_of_no_calls ev env scope fun r hr => (h r hr).isMixin_eq_false

/-- Capturing shows only in the closure. -/
lemma Block.capture_erase (b : Block) (scope : Scope) (m : Memory) :
    ((b.capture scope).run m).1.erase = b.erase := by
  obtain ⟨stamp, selectors, rules, kind⟩ := b
  cases kind <;> rfl

/-! ## Finished trees

By induction over what makes a node finished. A definition among rules is the one thing that is not
evaluated: it captures the scope, and that is forgotten by `erase`. -/

section finished

variable (env : Env) (scope : Scope)

/-- A rule that is a definition is captured, any other rule is evaluated as a node. -/
lemma Node.FinishedRule.yields_self {r : Node}
    (h : r.isDefinition = false → ∀ m, ∃ v m',
      Yields (fun fuel => r.evaluate fuel env scope) m (.ok v, m') ∧ v.erase = r.erase) (m : Memory) :
    ∃ v m', Yields (fun fuel => Block.evaluateRule (evaluator fuel) env scope r) m (.ok v, m') ∧
      v.erase = r.erase := by
  cases hdef : r.isDefinition with
  | false =>
    simp only [Block.evaluateRule_of_not_definition hdef]
    exact h hdef m
  | true =>
    cases r with
    | block child =>
      rw [Node.isDefinition] at hdef
      refine ⟨.block ((child.capture scope).run m).1, ((child.capture scope).run m).2, ?_, ?_⟩
      · simp only [Block.evaluateRule, hdef, if_true]
        exact .const _ m
      · rw [Node.erase_block, Node.erase_block, Block.capture_erase]
    | _ => cases hdef

/-- A block whose rules yield themselves yields itself. -/
lemma Block.Finished.yields_self {b : Block} (hb : b.Finished)
    (h : ∀ scope, ∀ r ∈ b.rules, r.isDefinition = false → ∀ m, ∃ v m',
      Yields (fun fuel => r.evaluate fuel env scope) m (.ok v, m') ∧ v.erase = r.erase) (m : Memory) :
    ∃ c m', Yields (fun fuel => b.evaluate fuel env scope) m (.ok c, m') ∧ c.erase = b.erase := by
  obtain ⟨rules, m₁, hrules, herase⟩ := Yields.mapM (f := Node.erase) (g := Node.erase)
    (fun r hr => Node.FinishedRule.yields_self env (b :: scope) (h (b :: scope) r hr)) m
  refine ⟨((b.rebuilt rules).run m₁).1, ((b.rebuilt rules).run m₁).2, ?_, ?_⟩
  · refine Yields.of_succ ?_
    have hstep : ∀ fuel, b.evaluate (fuel + 1) env scope =
        b.expandCalls (evaluator fuel) env scope >>= fun frame =>
          frame.rules.mapM (Block.evaluateRule (evaluator fuel) env (frame :: scope)) >>=
            fun rules => frame.rebuilt rules := fun _ => rfl
    simp only [hstep, hb.expandCalls, pure_bind]
    exact hrules.bind (.const _ m₁)
  · rw [Block.erase_eq, Block.erase_eq]
    show Block.mk 0 b.selectors (rules.map _) b.kind.erase = _
    rw [herase]

/-- **A finished node yields itself**, in every environment and every scope. By induction on the node: its
parts yield themselves, and in a block there is no call to expand. -/
theorem Node.Finished.yields_self {n : Node} (hn : n.Finished) (m : Memory) :
    ∃ v m', Yields (fun fuel => n.evaluate fuel env scope) m (.ok v, m') ∧ v.erase = n.erase := by
  induction hn generalizing scope m with
  | @intro n notPending values rules ihValues ihRules =>
    cases n with
    | text | quoted | number | color | comment | atImport =>
      exact ⟨_, m, .of_succ (.const (pure _) m), rfl⟩
    | expression items =>
      obtain ⟨vs, m₁, hvs, herase⟩ := Yields.mapM (l := items) (fun i hi => ihValues i hi scope) m
      refine ⟨.expression vs, m₁, .of_succ (hvs.bind (.const (pure _) m₁)), ?_⟩
      rw [Node.erase_expression, Node.erase_expression, herase]
    | list items =>
      obtain ⟨vs, m₁, hvs, herase⟩ := Yields.mapM (l := items) (fun i hi => ihValues i hi scope) m
      refine ⟨.list vs, m₁, .of_succ (hvs.bind (.const (pure _) m₁)), ?_⟩
      rw [Node.erase_list, Node.erase_list, herase]
    | declaration d =>
      obtain ⟨v, m₁, hv, herase⟩ := ihValues d.value List.mem_cons_self scope m
      refine ⟨.declaration { d with value := v }, m₁, .of_succ (hv.bind (.const (pure _) m₁)), ?_⟩
      rw [Node.erase_declaration, Node.erase_declaration, herase]
    | block b =>
      obtain ⟨c, m₁, hc, herase⟩ := Block.Finished.yields_self env scope (rules b rfl)
        (fun scope r hr hdef => ihRules b rfl r hr hdef scope) m
      refine ⟨.block c, m₁, .of_succ (hc.bind (.const (pure _) m₁)), ?_⟩
      rw [Node.erase_block, Node.erase_block, herase]
    | var | operation | call | accessor | mixin => cases notPending

end finished

/-- **Evaluation is idempotent.** In what a node evaluates to, nothing is left to evaluate outside
mixin definitions, and evaluating it again, in any environment and any scope, yields the same node up
to what definitions have captured. -/
theorem Node.evaluate_evaluate {fuel : Nat} {env : Env} {scope : Scope} {n v : Node} {m m' : Memory}
    (h : outcome (n.evaluate fuel env scope) m = (.ok v, m')) :
    v.Resolved ∧ ∀ (env' : Env) (scope' : Scope) (m₁ : Memory), ∃ v' m₂,
      Yields (fun fuel => v.evaluate fuel env' scope') m₁ (.ok v', m₂) ∧
        v'.erase = v.erase := by
  have hrespects : Ensures (n.evaluate fuel env scope) (Evaluated .any .rule n) _ :=
    (evaluator_respects .any fuel).node scope.conforms_any (conforms_any.1 n .rule)
      fun hstrict => absurd hstrict Grammar.not_strict_any
  have hfinished := (hrespects.value h).finished
  exact ⟨hfinished.resolved, fun env' scope' m₁ => hfinished.yields_self env' scope' m₁⟩

/-- The block `.a { @c: red; .m(@x: none) { color: @x; } .m(@c); }`. -/
def Block.callingSample : Block :=
  ⟨0, [⟨[⟨.descendant, ".a"⟩]⟩],
    [.declaration (.plain "@c" (.text "red")),
      .block ⟨0, [⟨[⟨.descendant, ".m"⟩]⟩], [.declaration (.plain "color" (.var "@x"))],
        .definition [.optional "@x" (.text "none")]⟩,
      .mixin ⟨⟨[⟨.descendant, ".m"⟩]⟩, [.positional (.var "@c")]⟩],
    .plain⟩

/-- The block with its call expanded: evaluated once more, anywhere and from any memory, it gives itself
but for stamps. -/
theorem Node.evaluate_evaluate_callingSample : ∃ v m',
    outcome ((Node.block .callingSample).evaluate 8 {} []) .empty = (.ok v, m') ∧
      v.Resolved ∧ ∀ (env' : Env) (scope' : Scope) (m₁ : Memory), ∃ v' m₂,
        Yields (fun fuel => v.evaluate fuel env' scope') m₁ (.ok v', m₂) ∧
          v'.erase = v.erase := by
  obtain ⟨v, m', h⟩ : ∃ v m',
      outcome ((Node.block .callingSample).evaluate 8 {} []) .empty = (.ok v, m') := ⟨_, _, rfl⟩
  exact ⟨v, m', h, Node.evaluate_evaluate h⟩

end Stylesheet
