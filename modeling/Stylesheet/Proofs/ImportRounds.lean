import Stylesheet.Proofs.Rendering
import Stylesheet.Proofs.Termination

/-!
# When rendering ends

Rendering follows the tree and evaluates as it goes, and every evaluation ends. But rendering a root
first replaces its imports, and the rules that come in are no part of the tree. Inside one such
*round* a circle of imports ends at the depth limit. The rounds themselves are not counted: a root
that is nested in an imported tree starts a round of its own, at the depth of the first one.

* **Rounds are all that can go on forever.** `Block.renderWithin` renders as `Block.render` does, but
  stops for the recursion limit where rounds are nested deeper than a given number. It always ends
  (`Block.renderWithin_ends`), and rendering ends exactly if it agrees with `renderWithin` for some
  number of rounds (`Block.render_ends_iff`).
* **Trees without nested roots** start one round at most, so they are always rendered to the end
  (`Block.render_ends_of_flat`).
-/

namespace Stylesheet

/-- The first import that rendering the block replaces. -/
def Block.importing? (b : Block) : Option String :=
  if b.isRoot then b.rules.findSome? Node.pendingImport? else none

/-- Only a root has imports to replace. -/
lemma Block.isRoot_of_importing {b : Block} (h : b.importing? ≠ none) : b.isRoot = true := by
  by_contra hroot
  exact h (if_neg hroot)

/-- A block that replaces no imports is rendered as it stands. -/
lemma Block.source_of_importing_eq_none {b : Block} (env : Env) (h : b.importing? = none) :
    b.source env = pure b := by
  unfold Block.source
  split
  · next hroot =>
    rw [Block.importing?, if_pos hroot, List.findSome?_eq_none_iff] at h
    have hnone : ¬(b.rules.any fun rule => rule.pendingImport?.isSome) = true := by
      rw [List.any_eq_true]
      rintro ⟨rule, hrule, hpending⟩
      rw [h rule hrule] at hpending
      cases hpending
    rw [Block.expandImports, if_neg hnone]
  · rfl

/-- Rendering that stops where rounds of imports are nested deeper than `rounds`. -/
def Block.renderWithin :
    (fuel rounds : Nat) → Env → Scope → List Path → Block → EvalM String
  | 0, _, _, _, _, _ => throw .outOfFuel
  | fuel + 1, rounds, env, scope, context, b =>
    match b.importing?, rounds with
    | none, rounds => renderWith (evaluator fuel) (renderWithin fuel rounds) env scope context b
    | some _, rounds + 1 =>
      renderWith (evaluator fuel) (renderWithin fuel rounds) env scope context b
    | some path, 0 => throw (.recursionLimit env.options.maxDepth path)

namespace Block

section steps

variable (fuel : Nat) (env : Env) (scope : Scope) (context : List Path) {b : Block}

/-- A block that replaces no import is rendered in the rounds that are left. -/
lemma renderWithin_of_none (rounds : Nat) (h : b.importing? = none) :
    renderWithin (fuel + 1) rounds env scope context b =
      renderWith (evaluator fuel) (renderWithin fuel rounds) env scope context b := by
  simp only [renderWithin, h]

/-- A block that replaces an import takes one round. -/
lemma renderWithin_succ_of_some (rounds : Nat) {path : String} (h : b.importing? = some path) :
    renderWithin (fuel + 1) (rounds + 1) env scope context b =
      renderWith (evaluator fuel) (renderWithin fuel rounds) env scope context b := by
  simp only [renderWithin, h]

/-- Without rounds left, a block that replaces an import stops at the limit. -/
lemma renderWithin_zero_of_some {path : String} (h : b.importing? = some path) :
    renderWithin (fuel + 1) 0 env scope context b =
      throw (.recursionLimit env.options.maxDepth path) := by
  simp only [renderWithin, h]

end steps

/-- Counting the rounds changes nothing about fuel: more of it never changes an answer. -/
lemma renderWithin_approximates {fuel fuel' : Nat} (hle : fuel ≤ fuel') (rounds : Nat) (env : Env)
    (scope : Scope) (context : List Path) (b : Block) :
    Approximates (renderWithin fuel rounds env scope context b)
      (renderWithin fuel' rounds env scope context b) := by
  induction fuel generalizing fuel' rounds env scope context b with
  | zero => exact .outOfFuel _
  | succ fuel ih =>
    obtain ⟨fuel', rfl⟩ : ∃ k, fuel' = k + 1 := ⟨fuel' - 1, by omega⟩
    have hle := Nat.le_of_succ_le_succ hle
    have hwith := fun rounds => renderWith_approximates hle env scope
      (fun scope => ih hle rounds env scope) context b
    cases himport : b.importing? with
    | none =>
      rw [renderWithin_of_none _ _ _ _ _ himport, renderWithin_of_none _ _ _ _ _ himport]
      exact hwith rounds
    | some path =>
      cases rounds with
      | zero =>
        rw [renderWithin_zero_of_some _ _ _ _ himport, renderWithin_zero_of_some _ _ _ _ himport]
        exact .refl _
      | succ rounds =>
        rw [renderWithin_succ_of_some _ _ _ _ _ himport, renderWithin_succ_of_some _ _ _ _ _ himport]
        exact hwith rounds

/-- Rounds take fuel, so there are never more of them than fuel. -/
lemma renderWithin_eq_render {fuel rounds : Nat} (hle : fuel ≤ rounds) :
    renderWithin fuel rounds = render fuel := by
  induction fuel generalizing rounds with
  | zero => rfl
  | succ fuel ih =>
    funext env scope context b
    obtain ⟨rounds, rfl⟩ : ∃ k, rounds = k + 1 := ⟨rounds - 1, by omega⟩
    cases himport : b.importing? with
    | none =>
      rw [renderWithin_of_none _ _ _ _ _ himport, ih (Nat.le_of_succ_le hle)]
      rfl
    | some path =>
      rw [renderWithin_succ_of_some _ _ _ _ _ himport, ih (Nat.le_of_succ_le_succ hle)]
      rfl

end Block

/-! ## Rendering follows the tree

A block is rendered with its calls expanded, so the blocks nested in it are those of the tree and those
that calls have brought in. The latter are finished, and what is finished stays as it is. -/

/-- A block is rendered to the end if the blocks among its expanded rules are. Its imports are replaced
without fuel, and calls and lines are evaluated, which always ends. -/
lemma Block.renderWith_ends {run : Nat → Env → Scope → List Path → Block → EvalM String} {env : Env}
    {scope : Scope} {context : List Path} {b : Block}
    (h : ∀ m source m₁ frame m₂, outcome (b.source env) m = (.ok source, m₁) →
      Yields (fun fuel => source.expandCalls (evaluator fuel) env scope) m₁ (.ok frame, m₂) →
      ∀ child, Node.block child ∈ frame.rules → child.isDefinition = false →
        ∀ m, Ends (fun fuel => run fuel env (frame :: scope) (b.innerPaths context) child) m)
    (m : Memory) :
    Ends (fun fuel => renderWith (evaluator fuel) (run fuel) env scope context b) m := by
  simp only [Block.renderWith_eq]
  -- replacing imports needs no fuel, so all it can run into is an error of its own
  have hsource : Ends (fun _ => b.source env) m := by
    refine .const fun herror => ?_
    have hserves : env.Serves .any := fun _ tree _ => conforms_any.2 tree
    have hrespects := Block.source_respects hserves (conforms_any.2 b)
    cases hrespects.cause (Prod.ext herror rfl : outcome (b.source env) m = (_, _))
  refine hsource.bind fun source m₁ hsource => ?_
  obtain ⟨_, hsource⟩ := hsource.exists_outcome_eq
  refine .bind (Block.expandCallsFrom_ends (fun _ => env.deeper.settles) scope source [] _ m₁)
    fun frame m₂ hframe => ?_
  refine .bind (.mapM (fun r hr m => ?_) m₂) fun pieces _ _ => .pure _
  rcases Block.renderRule_cases frame.isRoot r with
    ⟨piece, hpiece⟩ | ⟨child, rfl, hdef, hnested⟩ | ⟨-, hline⟩
  · simp only [hpiece]
    exact .pure piece
  · simp only [hnested, map_eq_pure_bind]
    exact .bind (h _ _ _ _ _ hsource hframe child hr hdef m) fun text _ _ => .pure _
  · simp only [hline, Block.renderLine]
    refine .bind (env.settles.node _ r m) fun v _ _ => ?_
    exact .bind (.liftExcept v.toCss_ne_outOfFuel) fun text _ _ => .pure _

section tree

variable {g : Grammar} {env : Env} {run : Nat → Env → Scope → List Path → Block → EvalM String}
  (hrun : ∀ fuel scope context b, b.importing? = none → run (fuel + 1) env scope context b =
    Block.renderWith (evaluator fuel) (run fuel) env scope context b)
  (hrounds : ∀ b, (Node.block b).Conforms g .rule → b.importing? ≠ none →
    ∀ scope, Scope.Conforms g scope → ∀ context m, Ends (fun fuel => run fuel env scope context b) m)

include hrun hrounds

/-- A finished block stays as it is when its calls are expanded, so rendering follows its rules. -/
lemma Node.Finished.render_ends {n : Node} (hn : n.Finished) {b : Block} (hb : n = .block b)
    (hconforms : n.Conforms g .rule) {scope : Scope} (hscope : Scope.Conforms g scope)
    (context : List Path) (m : Memory) : Ends (fun fuel => run fuel env scope context b) m := by
  induction hn generalizing b scope context m with
  | @intro n notPending values rules ihValues ihRules =>
    subst hb
    by_cases himport : b.importing? = none
    · refine .of_succ ?_
      simp only [hrun _ scope context b himport]
      refine Block.renderWith_ends (fun m source m₁ frame m₂ hsource hframe => ?_) m
      rw [Block.source_of_importing_eq_none env himport] at hsource
      cases hsource
      simp only [Block.Finished.expandCalls (rules b rfl)] at hframe
      cases hframe.unique (.const (pure b) m)
      intro child hchild hdef m
      exact ihRules b rfl _ hchild hdef rfl (hconforms.of_block.of_mem_rules hchild)
        (hscope.cons hconforms.of_block) _ m
    · exact hrounds b hconforms himport scope hscope context m

/-- **Outside of rounds, rendering ends.** The rules of an expanded block are rules that were there,
which are smaller, or finished rules that a call stood for. -/
lemma Node.render_ends {n : Node} {b : Block} (hb : n = .block b) (hconforms : n.Conforms g .rule)
    {scope : Scope} (hscope : Scope.Conforms g scope) (context : List Path) (m : Memory) :
    Ends (fun fuel => run fuel env scope context b) m := by
  induction n using Node.induction generalizing b scope context m with
  | step n _ ih =>
    subst hb
    by_cases himport : b.importing? = none
    · refine .of_succ ?_
      simp only [hrun _ scope context b himport]
      refine Block.renderWith_ends (fun m source m₁ frame m₂ hsource hframe => ?_) m
      rw [Block.source_of_importing_eq_none env himport] at hsource
      cases hsource
      have hexpanded : b.Expanded g frame := hframe.value fun fuel =>
        Block.expandCalls_respects (evaluator_respects g fuel) hscope hconforms.of_block
      have hinside : Scope.Conforms g (frame :: scope) := hscope.cons hexpanded.conforms
      intro child hchild hdef m
      have hchildConforms := hexpanded.conforms.of_mem_rules hchild
      rcases hexpanded.origin _ hchild with ⟨hmem, -⟩ | hfinished
      · exact ih b rfl _ hmem rfl hchildConforms hinside _ m
      · exact Node.Finished.render_ends hrun hrounds (hfinished hdef) rfl hchildConforms hinside _ m
    · exact hrounds b hconforms himport scope hscope context m

end tree

/-! ## Bounded rounds

With a bound on the rounds there is something to count down where the tree at hand is left, and within one
round the tree is followed. -/

/-- **Rendering with a bound on the rounds ends.** -/
theorem Block.renderWithin_ends (rounds : Nat) (env : Env) (scope : Scope) (context : List Path)
    (b : Block) (m : Memory) :
    Ends (fun fuel => renderWithin fuel rounds env scope context b) m := by
  induction rounds generalizing scope context b m with
  | zero =>
    refine Node.render_ends (g := .any) (fun fuel scope context b himport =>
      renderWithin_of_none fuel env scope context 0 himport) ?_ rfl (conforms_any.1 _ _)
      scope.conforms_any context m
    intro b _ himport scope _ context m
    obtain ⟨path, hpath⟩ := Option.ne_none_iff_exists'.mp himport
    refine .of_succ ?_
    simp only [renderWithin_zero_of_some _ _ _ _ hpath]
    exact .throw nofun
  | succ rounds ih =>
    refine Node.render_ends (g := .any) (fun fuel scope context b himport =>
      renderWithin_of_none fuel env scope context (rounds + 1) himport) ?_ rfl (conforms_any.1 _ _)
      scope.conforms_any context m
    intro b _ himport scope _ context m
    obtain ⟨path, hpath⟩ := Option.ne_none_iff_exists'.mp himport
    refine .of_succ ?_
    simp only [renderWithin_succ_of_some _ _ _ _ _ hpath]
    exact Block.renderWith_ends (fun _ _ _ frame _ _ _ child _ _ m => ih _ _ child m) m

/-- From the memory `m`, rounds of imports are nested up to some depth only. -/
def Block.BoundedRounds (env : Env) (scope : Scope) (context : List Path) (b : Block) (m : Memory) :
    Prop :=
  ∃ rounds, ∀ fuel, outcome (renderWithin fuel rounds env scope context b) m =
    outcome (render fuel env scope context b) m

/-- **Rendering ends exactly if its rounds are bounded.** -/
theorem Block.render_ends_iff (env : Env) (scope : Scope) (context : List Path) (b : Block)
    (m : Memory) :
    Ends (fun fuel => render fuel env scope context b) m ↔
      b.BoundedRounds env scope context m := by
  constructor
  · rintro ⟨r, ⟨enough, hr⟩, hfuel⟩
    refine ⟨enough, fun fuel => ?_⟩
    by_cases hle : fuel ≤ enough
    · rw [renderWithin_eq_render hle]
    · have hwithin : outcome (renderWithin enough enough env scope context b) m = r := by
        rw [renderWithin_eq_render (Nat.le_refl enough)]
        exact hr enough (Nat.le_refl enough)
      have hmore := renderWithin_approximates (Nat.le_of_not_le hle) enough env scope context b
      rw [hmore.outcome_eq (by rw [hwithin]; exact hfuel), hwithin]
      exact (hr fuel (Nat.le_of_not_le hle)).symm
  · rintro ⟨rounds, hrounds⟩
    obtain ⟨r, ⟨enough, hr⟩, hfuel⟩ := renderWithin_ends rounds env scope context b m
    refine ⟨r, ⟨enough, fun fuel hle => ?_⟩, hfuel⟩
    rw [← hrounds fuel, hr fuel hle]

/-! ## Trees without nested roots -/

/-- No root is nested. -/
def Grammar.flat : Grammar where
  allows _ s := s ≠ .block true
  text _ := nofun
  number _ := nofun
  color _ := nofun
  declaration := nofun
  rule_of_value := fun h => h

/-- **Without nested roots, rendering ends.** -/
theorem Block.render_ends_of_flat {env : Env} (henv : env.Serves .flat) {scope : Scope}
    (hscope : Scope.Conforms .flat scope) (context : List Path) {b : Block} (hb : b.Conforms .flat)
    (m : Memory) : Ends (fun fuel => render fuel env scope context b) m := by
  refine .of_succ (Block.renderWith_ends (fun m source m₁ frame m₂ hsource hframe => ?_) m)
  have hsourced := (Block.source_respects henv hb).value hsource
  have hexpanded : source.Expanded .flat frame := hframe.value fun fuel =>
    Block.expandCalls_respects (evaluator_respects .flat fuel) hscope hsourced
  intro child hchild _ m
  refine Node.render_ends (fun _ _ _ _ _ => rfl) ?_ rfl (hexpanded.conforms.of_mem_rules hchild)
    (hscope.cons hexpanded.conforms) _ m
  -- a block among the rules is no root, so it starts no round
  intro b hb himport
  have hroot : (Node.block b).shape = .block true := by
    rw [Node.shape, Block.isRoot_of_importing himport]
  exact absurd hroot hb.allowed

end Stylesheet
