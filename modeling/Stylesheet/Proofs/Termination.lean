import Stylesheet.Proofs.Reevaluation

/-!
# Evaluation ends

Variables, accessors and mixin calls can lead back to where they were met, so the tree alone does not
bound an evaluation. What bounds it is the depth guard together with the tree:

* each step that leaves the tree at hand, to the value of a variable or to the body of a mixin, goes
  through the guard, so it happens in an environment one level deeper;
* inside one level, evaluation follows the tree. There is one exception. The rules that a call stands
  for are put in its place and evaluated again, without a guard, and they are no part of the tree. But
  they are finished, and what is finished yields itself (`Node.Finished.yields_self`).

So the proof is an induction on the levels that are left (`Env.settles`), and within it one on the
tree (`Node.evaluate_ends_of_deeper`).
-/

namespace Stylesheet

/-- Every evaluation in the environment ends. -/
structure Env.Settles (env : Env) : Prop where
  /-- Nodes. -/
  node : ∀ scope n m, Ends (fun fuel => Node.evaluate fuel env scope n) m
  /-- Blocks. -/
  block : ∀ scope b m, Ends (fun fuel => Block.evaluate fuel env scope b) m

/-- A fault of the style sheet is not a lack of fuel. -/
lemma Proper.ne_outOfFuel {α : Type} {P : α → Prop} {x : Except EvalError α} (h : Proper P x) :
    x ≠ .error .outOfFuel := by
  rintro rfl
  cases h with
  | error he => cases he

/-! ## Mixin calls, one level deeper

The parts of a call that evaluate arguments, defaults and bodies do so through an evaluator. They end if
that evaluator ends on all of them. -/

namespace MixinCall

variable {env : Env} (henv : env.Settles) (scope : Scope) (call : MixinCall)

include henv

/-- Arguments are evaluated one after the other, and there are finitely many. -/
lemma fillSlots_ends (params : List Parameter) (position : Nat) (named : Bool) (args : List Argument)
    (slots : List (Option Node)) (m : Memory) :
    Ends (fun fuel => fillSlots (evaluator fuel) env scope call params position named args slots)
      m := by
  induction args generalizing position named slots m with
  | nil => exact .pure slots
  | cons arg rest ih =>
    simp only [fillSlots]
    refine .bind (.liftExcept (call.slot_proper params position named arg).ne_outOfFuel)
      fun slot m₁ _ => ?_
    exact .bind (henv.node scope arg.value m₁) fun value m₂ _ => ih _ _ _ m₂

/-- A default is evaluated like any other value. -/
lemma parameterValue_ends (p : Parameter) (slot : Option Node) (m : Memory) :
    Ends (fun fuel => parameterValue (evaluator fuel) env scope call p slot) m := by
  cases slot with
  | some value => exact .pure value
  | none =>
    simp only [parameterValue]
    split
    · exact henv.node scope _ m
    · exact .throw (by simp)

/-- Binding ends: slots are filled, and then each parameter gets its value. -/
lemma bind_ends (params : List Parameter) (args : List Argument) (m : Memory) :
    Ends (fun fuel => bind (evaluator fuel) env scope call params args) m := by
  unfold bind
  dsimp only
  split
  · refine .bind (.throw (by simp)) fun _ m₁ hthrow => ?_
    obtain ⟨_, hthrow⟩ := hthrow.exists_outcome_eq
    cases hthrow
  · refine .bind (fillSlots_ends henv scope call params _ _ _ _ m) fun slots m₁ _ => ?_
    refine .mapM (fun (p, slot) _ m => ?_) m₁
    exact .bind (parameterValue_ends henv scope call p slot m) fun value _ _ => .pure _

/-- Entering a definition ends, whether or not it has parameters. -/
lemma enterParams_ends (args : List Argument) (b : Block) (bodyScope : Scope) (m : Memory) :
    Ends (fun fuel => enterParams (evaluator fuel) env scope call args b bodyScope) m := by
  unfold enterParams
  split
  · exact .pure bodyScope
  · refine .bind (bind_ends henv scope call _ args m) fun bound m₁ _ => ?_
    exact .bind (.liftState _) fun frame _ _ => .pure _

/-- There are finitely many enclosing definitions. -/
lemma enterEnclosing_ends (enclosing : List Block) (bodyScope : Scope) (m : Memory) :
    Ends (fun fuel => enterEnclosing (evaluator fuel) env scope call enclosing bodyScope) m := by
  induction enclosing generalizing bodyScope m with
  | nil => exact .pure bodyScope
  | cons b rest ih =>
    simp only [enterEnclosing]
    exact .bind (enterParams_ends henv scope call [] b bodyScope m) fun _ m₁ _ => ih _ m₁

/-- The body of a mixin ends, in an environment in which all blocks do. -/
lemma expandMatch_ends (found : Match) (m : Memory) :
    Ends (fun fuel => expandMatch (evaluator fuel) env scope call found) m := by
  unfold expandMatch
  refine .bind (enterEnclosing_ends henv scope call found.enclosing _ m) fun outer m₁ _ => ?_
  refine .bind (enterParams_ends henv scope call call.args found.block outer m₁) fun inner m₂ _ => ?_
  exact .bind (henv.block inner found.block m₂) fun b _ _ => .pure b.rules

end MixinCall

/-! ## One level

Here the tree is followed. What lies behind the guard ends by assumption, since it is one level deeper. -/

section level

variable {env : Env} (hdeeper : env.depth < env.options.maxDepth → env.deeper.Settles)

include hdeeper

/-- Every body of a mixin is behind the guard. -/
lemma MixinCall.evaluate_ends_of_deeper (scope : Scope) (call : MixinCall) (m : Memory) :
    Ends (fun fuel => call.evaluate fuel env scope) m := by
  unfold MixinCall.evaluate MixinCall.evaluateWith
  refine .bind (.liftState _) fun found m₁ _ => ?_
  refine .bind (.mapM (fun f _ m => ?_) m₁) fun bodies _ _ => .pure bodies.flatten
  exact .guarded fun hlt => MixinCall.expandMatch_ends (hdeeper hlt) scope call f m

/-- There are finitely many calls in a block, and what they stand for is not gone through again. -/
lemma Block.expandCallsFrom_ends (scope : Scope) (frame : Block) (done rest : List Node)
    (m : Memory) :
    Ends (fun fuel => Block.expandCallsFrom (evaluator fuel) env scope frame done rest) m := by
  induction rest generalizing frame done m with
  | nil => exact .pure frame
  | cons rule rest ih =>
    cases rule with
    | mixin call =>
      simp only [Block.expandCallsFrom]
      refine .bind (MixinCall.evaluate_ends_of_deeper hdeeper (frame :: scope) call m)
        fun expanded m₁ _ => ?_
      exact .bind (.liftState _) fun frame' m₂ _ => ih frame' _ m₂
    | _ => exact ih frame _ m

/-- The value of a variable is behind the guard. -/
lemma Evaluator.reference_ends (scope : Scope) (name : String) (m : Memory) :
    Ends (fun fuel => (evaluator fuel).reference env scope name) m := by
  unfold Evaluator.reference
  split
  · exact .throw nofun
  · split
    · exact .pure _
    · exact .guarded fun hlt => (hdeeper hlt).node scope _ m

/-- The value that an accessor reads is behind the guard. -/
lemma Evaluator.accessor_ends (scope : Scope) (a : Accessor) (m : Memory) :
    Ends (fun fuel => (evaluator fuel).accessor env scope a) m := by
  unfold Evaluator.accessor
  refine .bind (.liftState _) fun found m₁ _ => ?_
  split
  · exact .throw nofun
  · split
    · exact .throw nofun
    · exact .guarded fun hlt => (hdeeper hlt).node _ _ m₁

omit hdeeper in
/-- The arguments of a function are parts of the tree, and applying it takes no fuel. -/
lemma Evaluator.call_ends (scope : Scope) (name : String) {args : List Node}
    (hargs : ∀ a ∈ args, ∀ m, Ends (fun fuel => a.evaluate fuel env scope) m) (m : Memory) :
    Ends (fun fuel => (evaluator fuel).call env scope name args) m := by
  unfold Evaluator.call
  refine .bind (.mapM hargs m) fun values m₁ _ => ?_
  split
  · exact .liftExcept (Builtin.apply_proper _ _).ne_outOfFuel
  · split
    · exact .throw nofun
    · refine .bind (.liftExcept ?_) fun printed _ _ => .pure _
      exact Node.toCssAll_ne_outOfFuel fun v _ => v.toCss_ne_outOfFuel

omit hdeeper in
/-- A rule of an expanded block is one of the rules that were there, or it is finished. -/
lemma Block.evaluateRule_ends (scope : Scope) {r : Node}
    (hr : (∀ m, Ends (fun fuel => r.evaluate fuel env scope) m) ∨ r.FinishedRule) (m : Memory) :
    Ends (fun fuel => Block.evaluateRule (evaluator fuel) env scope r) m := by
  rcases hr with hr | hr
  · cases r with
    | block child =>
      simp only [Block.evaluateRule]
      split
      · exact .bind (.liftState _) fun c _ _ => .pure _
      · exact hr m
    | _ => exact hr m
  · obtain ⟨v, m', hv, -⟩ := Node.FinishedRule.yields_self env scope
      (fun hdef => (hr hdef).yields_self env scope) m
    exact .of_ok hv

/-- A block ends if its rules do: whatever else it comes to hold is finished. -/
lemma Block.evaluate_ends_of_deeper (scope : Scope) {b : Block}
    (hrules : ∀ r ∈ b.rules, ∀ scope m, Ends (fun fuel => r.evaluate fuel env scope) m)
    (m : Memory) : Ends (fun fuel => b.evaluate fuel env scope) m := by
  refine .of_succ ?_
  show Ends (fun fuel => b.evaluateWith (evaluator fuel) env scope) m
  unfold Block.evaluateWith
  refine .bind (Block.expandCallsFrom_ends hdeeper scope b [] b.rules m) fun frame m₁ hframe => ?_
  have hexpanded : b.Expanded .any frame := hframe.value fun fuel =>
    Block.expandCalls_respects (evaluator_respects .any fuel) scope.conforms_any (conforms_any.2 b)
  refine .bind (.mapM (fun r hr => ?_) m₁) fun rules _ _ => .liftState _
  refine Block.evaluateRule_ends (frame :: scope) ?_
  rcases hexpanded.origin r hr with ⟨hr, -⟩ | hr
  · exact .inl (hrules r hr (frame :: scope))
  · exact .inr hr

/-- If everything ends one level deeper, evaluation of a tree ends. -/
lemma Node.evaluate_ends_of_deeper (n : Node) (scope : Scope) (m : Memory) :
    Ends (fun fuel => n.evaluate fuel env scope) m := by
  induction n using Node.induction generalizing scope m with
  | step n hvalues hrules =>
    refine .of_succ ?_
    cases n with
    | text | quoted | number | color | comment | atImport => exact .pure _
    | mixin => exact .throw nofun
    | expression items | list items =>
      exact .bind (.mapM (fun i hi => hvalues i hi scope) m) fun vs _ _ => .pure _
    | var name => exact Evaluator.reference_ends hdeeper scope name m
    | accessor a => exact Evaluator.accessor_ends hdeeper scope a m
    | call name args => exact Evaluator.call_ends scope name (fun a ha => hvalues a ha scope) m
    | operation op left right =>
      refine .bind (hvalues left (by simp [Node.values]) scope m) fun a m₁ _ => ?_
      refine .bind (hvalues right (by simp [Node.values]) scope m₁) fun b m₂ _ => ?_
      exact .liftExcept (Node.operate_proper op a b).ne_outOfFuel
    | declaration d =>
      exact .bind (hvalues d.value List.mem_cons_self scope m) fun v _ _ => .pure _
    | block b =>
      exact .bind (Block.evaluate_ends_of_deeper hdeeper scope (hrules b rfl) m) fun c _ _ => .pure _

end level

/-- **Every evaluation ends.** -/
theorem Env.settles (env : Env) : env.Settles := by
  induction hlevels : env.options.maxDepth - env.depth generalizing env with
  | zero =>
    have hdeeper : env.depth < env.options.maxDepth → env.deeper.Settles := fun hlt => by omega
    exact ⟨fun scope n => n.evaluate_ends_of_deeper hdeeper scope, fun scope b =>
      Block.evaluate_ends_of_deeper hdeeper scope fun r _ => r.evaluate_ends_of_deeper hdeeper⟩
  | succ levels ih =>
    have hdeeper : env.depth < env.options.maxDepth → env.deeper.Settles := fun hlt =>
      ih env.deeper (by show env.options.maxDepth - (env.depth + 1) = levels; omega)
    exact ⟨fun scope n => n.evaluate_ends_of_deeper hdeeper scope, fun scope b =>
      Block.evaluate_ends_of_deeper hdeeper scope fun r _ => r.evaluate_ends_of_deeper hdeeper⟩

end Stylesheet
