import Stylesheet.Compiler
import Stylesheet.Proofs.ImportRounds

/-!
# What a compilation ends with

* **Evaluation always ends, rendering almost always** (`evaluation_ends`): nodes, blocks and mixin
  calls are evaluated to the end in every environment. A block is rendered to the end exactly if the
  rounds of its imports are bounded, which they are where no root is nested.
* **A style sheet that is never rendered to the end** (`Compiler.not_ends_nestedRootSample`): it
  imports a tree in which a nested root imports that same tree.
* **Blame** (`Block.toCss_ends_blameless`): if blocks and mixin calls stand only among rules, then a
  style sheet that is rendered to the end gives a text, or the style sheet is at fault. Breaches of
  the evaluator's own rules and nodes without a printed form are out of reach, also with too little
  fuel.
-/

namespace Stylesheet

/-! ## Termination

The tree does not bound an evaluation, since a mixin may call itself and a variable may stand for itself.
The depth guard does. In rendering, the imports of nested roots are out of its reach: replacing them
starts at the depth at which it started for the root around them. -/

/-- **Evaluation always ends**, of nodes, of blocks and of mixin calls. Rendering ends exactly if the
rounds of imports are bounded, and always where no root is nested. -/
theorem evaluation_ends (env : Env) (scope : Scope) (m : Memory) :
    (∀ n : Node, Ends (fun fuel => n.evaluate fuel env scope) m) ∧
    (∀ b : Block, Ends (fun fuel => b.evaluate fuel env scope) m) ∧
    (∀ call : MixinCall, Ends (fun fuel => call.evaluate fuel env scope) m) ∧
    ∀ (context : List Path) (b : Block),
      (Ends (fun fuel => Block.render fuel env scope context b) m ↔
        b.BoundedRounds env scope context m) ∧
      (env.Serves .flat → Scope.Conforms .flat scope → b.Conforms .flat →
        Ends (fun fuel => Block.render fuel env scope context b) m) := by
  refine ⟨fun n => env.settles.node scope n m, fun b => env.settles.block scope b m, fun call => ?_,
    fun context b => ⟨Block.render_ends_iff env scope context b m, fun henv hscope hb => ?_⟩⟩
  · exact MixinCall.evaluate_ends_of_deeper (fun _ => env.deeper.settles) scope call m
  · exact Block.render_ends_of_flat henv hscope context hb m

/-- A root that imports the path `p` and nothing else. -/
def Block.importingSample (stamp : Nat) : Block :=
  ⟨stamp, [], [.atImport "p"], .root⟩

/-- The path `p` leads to a tree that imports `p`, beside a variable that stands for itself. -/
def Compiler.circularSample : Compiler where
  imports := [("p", ⟨1, [], [.declaration (.plain "@c" (.var "@c")), .atImport "p"], .root⟩)]

/-- The tree keeps to every grammar that allows its import. -/
lemma Block.importingSample_conforms {g : Grammar} (himport : g.allows .rule (.atImport "p"))
    (stamp : Nat) : (importingSample stamp).Conforms g := by
  refine .intro (fun r hr => ?_) (by simp [importingSample, Block.defaults, BlockKind.params?])
    (by simp [importingSample, Block.captures, BlockKind.closure?])
  rw [List.mem_singleton.mp hr]
  exact .atImport himport

/-- The path leads to a tree of every grammar that allows variables as values and the import as a rule. -/
lemma Compiler.circularSample_serves {g : Grammar} (himport : g.allows .rule (.atImport "p"))
    (hvar : g.allows .value .var) : circularSample.env.Serves g := by
  intro path tree htree
  simp only [Env.importTree?, Compiler.env, circularSample, Option.bind_some, List.lookup_cons,
    List.lookup_nil] at htree
  split at htree
  · cases htree
    refine .intro (fun r hr => ?_) (by simp [Block.defaults, BlockKind.params?])
      (by simp [Block.captures, BlockKind.closure?])
    simp only [List.mem_cons, List.not_mem_nil, or_false] at hr
    rcases hr with rfl | rfl
    · exact .declaration g.declaration (.var hvar _)
    · exact .atImport himport
  · cases htree

/-- The tree that imports itself: rendering ends, for the grammar of flat imports. -/
theorem evaluation_ends_circularSample :
    Compiler.circularSample.env.Serves .flat ∧ Scope.Conforms .flat [] ∧
      (Block.importingSample 0).Conforms .flat ∧
      Ends (fun fuel => Block.render fuel Compiler.circularSample.env [] [] (.importingSample 0))
        .empty := by
  have hserves : Compiler.circularSample.env.Serves .flat :=
    Compiler.circularSample_serves nofun nofun
  have hscope : Scope.Conforms .flat [] := by simp [Scope.Conforms]
  have hsample : (Block.importingSample 0).Conforms .flat :=
    Block.importingSample_conforms (g := .flat) nofun 0
  exact ⟨hserves, hscope, hsample,
    ((evaluation_ends _ [] .empty).2.2.2 [] _).2 hserves hscope hsample⟩

/-- The path `p` leads to a tree in which a nested root imports `p`. -/
def Compiler.nestedRootSample : Compiler where
  imports := [("p", ⟨1, [], [.block (.importingSample 2)], .root⟩)]

/-- The import is replaced by a nested root that has the import again, so no fuel is enough. -/
lemma Block.render_importingSample (fuel stamp : Nat) (scope : Scope) (context : List Path)
    (m : Memory) :
    (outcome (render fuel Compiler.nestedRootSample.env scope context (.importingSample stamp)) m).1 =
      .error .outOfFuel := by
  induction fuel generalizing stamp scope context m with
  | zero => rfl
  | succ fuel ih =>
    show (outcome (renderWith (evaluator fuel) (render fuel) _ scope context _) m).1 = _
    rw [Block.renderWith_eq]
    -- the import is replaced by the nested root, which is the sample again under another stamp
    have hsource : outcome ((importingSample stamp).source Compiler.nestedRootSample.env) m =
        (.ok ⟨m.fresh.1, [], [.block (importingSample 2)], .root⟩, m.fresh.2) := rfl
    rw [outcome_bind_of_ok hsource,
      Block.expandCalls_of_no_calls _ _ _ (by simp [Node.shape, Shape.isMixin]), pure_bind,
      List.mapM_cons]
    generalize hframe : Block.mk m.fresh.1 [] [Node.block (importingSample 2)] .root = frame
    have hnested : ∀ inner, Block.renderRule (evaluator fuel) inner Compiler.nestedRootSample.env
        (frame :: scope) frame.isRoot (.block (importingSample 2)) =
          inner (importingSample 2) >>= fun text => pure (.nested text) := fun _ => rfl
    rw [hnested, bind_assoc, bind_assoc]
    rcases hinner : outcome (render fuel Compiler.nestedRootSample.env (frame :: scope)
      ((importingSample stamp).innerPaths context) (importingSample 2)) m.fresh.2 with ⟨r, m'⟩
    have hfuel := ih 2 (frame :: scope) ((importingSample stamp).innerPaths context) m.fresh.2
    rw [hinner] at hfuel
    cases hfuel
    rw [outcome_bind_of_error hinner]

/-- **Rendering does not always end.** -/
theorem Compiler.not_ends_nestedRootSample (m : Memory) :
    ¬Ends (fun fuel => nestedRootSample.compileWithin fuel (.importingSample 0)) m := by
  rintro ⟨r, ⟨enough, hr⟩, hfuel⟩
  apply hfuel
  rw [← hr enough (Nat.le_refl enough)]
  exact Block.render_importingSample enough 0 [] [] m

/-! ## Blame

Evaluation stops for a fault of the style sheet, for lack of fuel, or for a breach of the evaluator's own
rules. A breach takes a block or a mixin call in the place of a value, and there is none in trees of plain
values. -/

/-- Neither blocks nor mixin calls stand as values. -/
def Grammar.plainValues : Grammar where
  allows
    | .value, s => s.isBlock = false ∧ s.isMixin = false
    | .rule, _ => True
  text p := by cases p <;> simp [Shape.isBlock, Shape.isMixin]
  number p := by cases p <;> simp [Shape.isBlock, Shape.isMixin]
  color p := by cases p <;> simp [Shape.isBlock, Shape.isMixin]
  declaration := trivial
  rule_of_value := fun _ => trivial

/-- Plain values are neither blocks nor calls. -/
lemma Grammar.strict_plainValues : Grammar.plainValues.Strict :=
  fun _ hs => hs

/-- From the memory `m`, `run` ends with a value or for a fault of the style sheet. -/
def EndsBlameless {α : Type} (run : Nat → EvalM α) (m : Memory) : Prop :=
  (∃ a m', Yields run m (.ok a, m')) ∨ ∃ e m', Yields run m (.error e, m') ∧ e.isUserError = true

/-- A computation that only stops for blameless causes ends blamelessly as soon as it ends. -/
lemma endsBlameless_iff {α : Type} {run : Nat → EvalM α} {P : α → Prop}
    (hrun : ∀ fuel, Ensures (run fuel) P EvalError.Blameless) (m : Memory) :
    EndsBlameless run m ↔ Ends run m := by
  constructor
  · rintro (⟨a, m', ha⟩ | ⟨e, m', he, huser⟩)
    · exact .of_ok ha
    · refine ⟨_, he, fun hfuel => ?_⟩
      cases hfuel
      cases huser
  · rintro ⟨⟨e | a, m'⟩, hyields, hfuel⟩
    · obtain ⟨fuel, he⟩ := hyields.exists_outcome_eq
      rcases (hrun fuel).cause he with huser | rfl
      · exact .inr ⟨e, m', hyields, huser⟩
      · exact absurd rfl hfuel
    · exact .inl ⟨a, m', hyields⟩

/-- With any fuel, the block stops for a fault of the style sheet or for lack of fuel only. -/
lemma Block.toCss_blameless {env : Env} (henv : env.Serves .plainValues) {b : Block}
    (hb : b.Conforms .plainValues) (fuel : Nat) :
    Ensures (b.toCss fuel env) (fun _ => True) EvalError.Blameless := by
  have hscope : Scope.Conforms .plainValues [] := by simp [Scope.Conforms]
  have htolerates := Block.render_tolerates fuel henv hscope [] hb
  exact ⟨fun _ => trivial, fun he => htolerates.cause he Grammar.strict_plainValues⟩

/-- **A style sheet is compiled, or it is at fault**, if neither its blocks nor its mixin calls stand
as values, nor those of the trees it imports. No other cause occurs, with any fuel but for the lack of
it; and there is an answer exactly if the rounds of imports are bounded, as they are without nested
roots. -/
theorem Block.toCss_ends_blameless {env : Env} (henv : env.Serves .plainValues) {b : Block}
    (hb : b.Conforms .plainValues) (m : Memory) :
    (∀ fuel e m', outcome (b.toCss fuel env) m = (.error e, m') →
      e.isUserError = true ∨ e = .outOfFuel) ∧
    (EndsBlameless (fun fuel => b.toCss fuel env) m ↔ b.BoundedRounds env [] [] m) ∧
    (env.Serves .flat → b.Conforms .flat → EndsBlameless (fun fuel => b.toCss fuel env) m) := by
  have hblameless := Block.toCss_blameless henv hb
  refine ⟨fun fuel e m' he => (hblameless fuel).cause he, ?_, fun hflat hbflat => ?_⟩
  · rw [endsBlameless_iff hblameless]
    exact Block.render_ends_iff env [] [] b m
  · rw [endsBlameless_iff hblameless]
    exact Block.render_ends_of_flat hflat (by simp [Scope.Conforms]) [] hbflat m

/-- The tree that imports itself ends with a fault of the style sheet. -/
theorem Block.toCss_ends_blameless_circularSample :
    Compiler.circularSample.env.Serves .plainValues ∧ (importingSample 0).Conforms .plainValues ∧
      EndsBlameless (fun fuel => Compiler.circularSample.compileWithin fuel (importingSample 0))
        .empty := by
  have hserves : Compiler.circularSample.env.Serves .plainValues :=
    Compiler.circularSample_serves trivial ⟨rfl, rfl⟩
  have hsample : (importingSample 0).Conforms .plainValues := importingSample_conforms trivial 0
  exact ⟨hserves, hsample, (Block.toCss_ends_blameless hserves hsample .empty).2.2
    (Compiler.circularSample_serves nofun nofun) (importingSample_conforms (g := .flat) nofun 0)⟩

end Stylesheet
