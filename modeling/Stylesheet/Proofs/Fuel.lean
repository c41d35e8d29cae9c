import Stylesheet.Proofs.LockstepRendering

/-!
# Fuel

Evaluation is given fuel, a bound on its own recursion. This file says in which sense the bound does
not matter.

* **One tree, one memory** (`Lockstep.sameTree`): two runs that may differ in their fuel and in their options
  only. They end alike, unless the first one stops for a cause that is excused (`Lockstep.sameTree_ends`).
* **More fuel never changes an answer** (`Node.evaluate_approximates`, `Block.render_approximates`).
  `Approximates x y`: from every memory, `x` runs out of fuel or `y` ends just as `x` does.
* **Answers without fuel.** `Yields run m r`: with all sufficient fuel, `run` ends with `r` from the
  memory `m`. This is evaluation as the style sheet sees it, and it composes like evaluation does
  (`Yields.bind`). `Ends run m`: some answer is reached at all.
-/

namespace Stylesheet

variable {α β : Type}

/-! ## One tree, one memory

The simplest comparison of two runs: stamps and memories are the same, and so alike trees are equal. What
the runs may differ in is how soon they stop. -/

/-- Two runs on one tree from one memory, of which the first may stop for the given causes. -/
def Lockstep.sameTree (excuses : EvalError → Prop) : Lockstep :=
  .ofStamps (fun m m' => m' = m) excuses (fun a b => b = a)
    (by
      rintro m _ rfl
      exact ⟨rfl, rfl⟩)
    (by
      rintro a _ m _ s rfl rfl
      exact ⟨rfl, rfl⟩)

section sameTree

variable {excuses : EvalError → Prop}

/-- Two runs on one tree end alike, or the first one stops for an excused cause. -/
lemma Lockstep.sameTree_ends {R : Unit → α → α → Prop} {x y : EvalM α}
    (h : (Lockstep.sameTree excuses).InStep () R x y) (hR : ∀ a b, R () a b → b = a) (m : Memory) :
    (∃ e, (outcome x m).1 = .error e ∧ excuses e) ∨ outcome y m = outcome x m := by
  refine (h m m rfl).imp_right ?_
  rintro ⟨_, -, hvalues, hmemories⟩
  refine Prod.ext ?_ hmemories
  generalize (outcome x m).1 = a, (outcome y m).1 = b at hvalues
  cases hvalues with
  | ok hab => rw [hR _ _ hab]
  | error e => rfl

/-- The other way round. -/
lemma Lockstep.inStep_sameTree {x y : EvalM α}
    (h : ∀ m, (∃ e, (outcome x m).1 = .error e ∧ excuses e) ∨ outcome y m = outcome x m) :
    (Lockstep.sameTree excuses).InStep () (fun _ => Eq) x y := by
  rintro _ m rfl
  refine (h m).imp_right fun hends => ?_
  rw [hends]
  exact ⟨(), trivial, concurs_rfl _, rfl⟩

/-- Every tree is alike to itself. -/
lemma Lockstep.sameTree_refl :
    (∀ n : Node, n.Alike ((Lockstep.sameTree excuses).variation ()) n) ∧
      ∀ b : Block, b.Alike ((Lockstep.sameTree excuses).variation ()) b :=
  alike_refl fun _ => rfl

/-- Every scope is alike to itself. -/
lemma Scope.sameTree_refl (scope : Scope) :
    Scope.Alike ((Lockstep.sameTree excuses).variation ()) scope scope :=
  Scope.alike_refl (fun _ => rfl) scope

/-- Both runs are in one environment. -/
lemma Lockstep.environments_sameTree (env : Env) :
    (Lockstep.sameTree excuses).Environments () env env :=
  .refl fun _ tree _ => Lockstep.sameTree_refl.2 tree

/-- Renderings of one tree end alike, or the first one stops for an excused cause. -/
lemma Block.render_sameTree {fuel fuel' : Nat}
    (hfuel : (Lockstep.sameTree excuses).Suffices fuel fuel') {env env' : Env}
    (henv : (Lockstep.sameTree excuses).Environments () env env') (scope : Scope)
    (context : List Path) (b : Block) (m : Memory) :
    (∃ e, (outcome (Block.render fuel env scope context b) m).1 = .error e ∧ excuses e) ∨
      outcome (Block.render fuel' env' scope context b) m =
        outcome (Block.render fuel env scope context b) m :=
  Lockstep.sameTree_ends
    (Block.render_inStep (.sameTree excuses) hfuel henv (fun _ tree _ => conforms_any.2 tree)
      scope.conforms_any scope.sameTree_refl context (conforms_any.2 b) (Lockstep.sameTree_refl.2 b))
    (fun _ _ hab => hab.symm) m

end sameTree

/-! ## More fuel never changes an answer

Lack of fuel is the only excuse here. All statements are instances of the walk through two runs, so no
rule of evaluation is looked at again. -/

/-- From every memory, `x` runs out of fuel or `y` ends just as `x` does. -/
def Approximates (x y : EvalM α) : Prop :=
  ∀ m, (outcome x m).1 = .error .outOfFuel ∨ outcome y m = outcome x m

namespace Approximates

variable {x y : EvalM α}

/-- What runs out of fuel approximates everything. -/
lemma outOfFuel (y : EvalM α) : Approximates (throw .outOfFuel) y :=
  fun _ => .inl rfl

/-- A computation approximates itself. -/
lemma refl (x : EvalM α) : Approximates x x :=
  fun _ => .inr rfl

/-- What approximates an answer has the same answer. -/
lemma outcome_eq (h : Approximates x y) {m : Memory} (hm : (outcome x m).1 ≠ .error .outOfFuel) :
    outcome y m = outcome x m :=
  (h m).resolve_left hm

/-- Runs that are in step where only lack of fuel is excused. -/
lemma of_inStep {R : Unit → α → α → Prop}
    (h : (Lockstep.sameTree (· = .outOfFuel)).InStep () R x y) (hR : ∀ a b, R () a b → b = a) :
    Approximates x y := by
  intro m
  refine (Lockstep.sameTree_ends h hR m).imp_left ?_
  rintro ⟨e, he, rfl⟩
  exact he

/-- The other way round. -/
lemma inStep (h : Approximates x y) :
    (Lockstep.sameTree (· = .outOfFuel)).InStep () (fun _ => Eq) x y :=
  Lockstep.inStep_sameTree fun m => (h m).imp_left fun he => ⟨_, he, rfl⟩

end Approximates

section approximates

variable {fuel fuel' : Nat} (hle : fuel ≤ fuel') (env : Env) (scope : Scope)

include hle

/-- More fuel, where lack of fuel is excused. -/
lemma evaluator_inStep_of_le :
    (evaluator fuel).InStep (.sameTree (· = .outOfFuel)) (evaluator fuel') :=
  evaluator_inStep _ (.inr ⟨hle, rfl⟩)

/-- **More fuel never changes what a node evaluates to.** -/
theorem Node.evaluate_approximates (n : Node) :
    Approximates (n.evaluate fuel env scope) (n.evaluate fuel' env scope) :=
  .of_inStep ((evaluator_inStep_of_le hle).node (Lockstep.environments_sameTree env)
    scope.conforms_any scope.sameTree_refl (conforms_any.1 n .value) (Lockstep.sameTree_refl.1 n))
    eq_of_alike.1

/-- **More fuel never changes what a block evaluates to.** -/
theorem Block.evaluate_approximates (b : Block) :
    Approximates (b.evaluate fuel env scope) (b.evaluate fuel' env scope) :=
  .of_inStep ((evaluator_inStep_of_le hle).block (Lockstep.environments_sameTree env)
    scope.conforms_any scope.sameTree_refl (conforms_any.2 b) (Lockstep.sameTree_refl.2 b))
    eq_of_alike.2

/-- The same for expanding the calls among the rules of a block. -/
lemma Block.expandCalls_approximates (b : Block) :
    Approximates (b.expandCalls (evaluator fuel) env scope)
      (b.expandCalls (evaluator fuel') env scope) :=
  .of_inStep (Block.expandCalls_inStep (evaluator_inStep_of_le hle)
    (Lockstep.environments_sameTree env) scope.conforms_any scope.sameTree_refl (conforms_any.2 b)
    (Lockstep.sameTree_refl.2 b)) eq_of_alike.2

/-- The same for a rule that is evaluated and printed. -/
lemma Block.renderLine_approximates {r : Node} (hmixin : r.shape.isMixin = false) :
    Approximates (Block.renderLine (evaluator fuel) env scope r)
      (Block.renderLine (evaluator fuel') env scope r) :=
  .of_inStep (Block.renderLine_inStep (evaluator_inStep_of_le hle) (Lockstep.environments_sameTree env)
    scope.conforms_any scope.sameTree_refl (conforms_any.1 r .rule) hmixin
    (Lockstep.sameTree_refl.1 r)) fun _ _ hab => hab.symm

/-- The same for one round of rendering, if it holds of what is nested. -/
lemma Block.renderWith_approximates {inner inner' : Env → Scope → List Path → Block → EvalM String}
    (hinner : ∀ scope context b, Approximates (inner env scope context b) (inner' env scope context b))
    (context : List Path) (b : Block) :
    Approximates (Block.renderWith (evaluator fuel) inner env scope context b)
      (Block.renderWith (evaluator fuel') inner' env scope context b) := by
  refine .of_inStep (Block.renderWith_inStep (evaluator_inStep_of_le hle)
    (Lockstep.environments_sameTree env) scope.conforms_any scope.sameTree_refl
    (fun _ tree _ => conforms_any.2 tree) ?_ context (conforms_any.2 b) (Lockstep.sameTree_refl.2 b))
    fun _ _ hab => hab.symm
  intro _ scope scope' context b b' _ _ hscope _ hb
  obtain rfl := eq_of_forall₂_of_mem hscope fun c _ c' => eq_of_alike.2 c c'
  obtain rfl := eq_of_alike.2 b b' hb
  exact (hinner scope' context b').inStep

/-- **More fuel never changes what a block is rendered to.** -/
theorem Block.render_approximates (context : List Path) (b : Block) :
    Approximates (Block.render fuel env scope context b) (Block.render fuel' env scope context b) := by
  intro m
  have hfuel : (Lockstep.sameTree (· = .outOfFuel)).Suffices fuel fuel' := .inr ⟨hle, rfl⟩
  refine (Block.render_sameTree hfuel (Lockstep.environments_sameTree env) scope context b m).imp_left ?_
  rintro ⟨e, he, rfl⟩
  exact he

end approximates

/-! ## Answers without fuel

How much fuel an evaluation takes has no meaning. `Yields` asks only that all amounts from some point on
agree, so that the amounts for two steps can be brought together. -/

/-- With all sufficient fuel, `run` ends from the memory `m` with `r`. -/
def Yields (run : Nat → EvalM α) (m : Memory) (r : Except EvalError α × Memory) : Prop :=
  ∃ enough, ∀ fuel, enough ≤ fuel → outcome (run fuel) m = r

/-- From the memory `m`, `run` ends with a value or for a cause, given sufficient fuel. -/
def Ends (run : Nat → EvalM α) (m : Memory) : Prop :=
  ∃ r, Yields run m r ∧ r.1 ≠ .error .outOfFuel

namespace Yields

variable {run : Nat → EvalM α} {k : Nat → α → EvalM β} {m m' : Memory}

/-- What takes no fuel yields what it ends with. -/
lemma const (x : EvalM α) (m : Memory) : Yields (fun _ => x) m (outcome x m) :=
  ⟨0, fun _ _ => rfl⟩

/-- There is one answer only. -/
lemma unique {r r' : Except EvalError α × Memory} (h : Yields run m r) (h' : Yields run m r') :
    r = r' := by
  obtain ⟨enough, h⟩ := h
  obtain ⟨enough', h'⟩ := h'
  rw [← h (max enough enough') (Nat.le_max_left _ _), h' _ (Nat.le_max_right _ _)]

/-- An answer is one that some fuel gives. -/
lemma exists_outcome_eq {r : Except EvalError α × Memory} (h : Yields run m r) :
    ∃ fuel, outcome (run fuel) m = r := by
  obtain ⟨enough, h⟩ := h
  exact ⟨enough, h enough (Nat.le_refl enough)⟩

/-- What holds of a value with any fuel holds of the value that is yielded. -/
lemma value {P : α → Prop} {E : EvalError → Prop} (hrun : ∀ fuel, Ensures (run fuel) P E) {a : α}
    (h : Yields run m (.ok a, m')) : P a := by
  obtain ⟨fuel, h⟩ := h.exists_outcome_eq
  exact (hrun fuel).value h

/-- An answer that some fuel gives stays the answer with more. -/
lemma of_outcome_eq (hrun : ∀ fuel fuel', fuel ≤ fuel' → Approximates (run fuel) (run fuel'))
    {fuel : Nat} {r : Except EvalError α × Memory} (h : outcome (run fuel) m = r)
    (hr : r.1 ≠ .error .outOfFuel) : Yields run m r := by
  refine ⟨fuel, fun fuel' hle => ?_⟩
  rw [← h] at hr ⊢
  exact (hrun fuel fuel' hle).outcome_eq hr

/-- One level of recursion more makes no difference. -/
lemma of_succ {r : Except EvalError α × Memory} (h : Yields (fun fuel => run (fuel + 1)) m r) :
    Yields run m r := by
  obtain ⟨enough, h⟩ := h
  refine ⟨enough + 1, fun fuel hle => ?_⟩
  obtain ⟨fuel, rfl⟩ : ∃ n, fuel = n + 1 := ⟨fuel - 1, by omega⟩
  exact h fuel (Nat.le_of_succ_le_succ hle)

/-- One step after another: the second one goes on from the memory that the first has left. -/
lemma bind {a : α} {r : Except EvalError β × Memory} (h : Yields run m (.ok a, m'))
    (hk : Yields (fun fuel => k fuel a) m' r) : Yields (fun fuel => run fuel >>= k fuel) m r := by
  obtain ⟨enough, h⟩ := h
  obtain ⟨enough', hk⟩ := hk
  refine ⟨max enough enough', fun fuel hle => ?_⟩
  rw [outcome_bind_of_ok (h fuel (Nat.le_trans (Nat.le_max_left _ _) hle))]
  exact hk fuel (Nat.le_trans (Nat.le_max_right _ _) hle)

/-- A step that stops is the last one. -/
lemma bind_error {e : EvalError} (h : Yields run m (.error e, m')) :
    Yields (fun fuel => run fuel >>= k fuel) m (.error e, m') := by
  obtain ⟨enough, h⟩ := h
  exact ⟨enough, fun fuel hle => outcome_bind_of_error (h fuel hle)⟩

/-- If each element of a list yields a value that is seen through `f` as the element is through `g`,
then so does the list. -/
lemma mapM {γ : Type} {run : Nat → α → EvalM β} {f : β → γ} {g : α → γ} {l : List α}
    (h : ∀ a ∈ l, ∀ m, ∃ b m', Yields (fun fuel => run fuel a) m (.ok b, m') ∧ f b = g a)
    (m : Memory) :
    ∃ bs m', Yields (fun fuel => l.mapM (run fuel)) m (.ok bs, m') ∧ bs.map f = l.map g := by
  induction l generalizing m with
  | nil =>
    refine ⟨[], m, ?_, rfl⟩
    simp only [List.mapM_nil]
    exact const _ m
  | cons a l ih =>
    obtain ⟨b, m₁, hb, hfb⟩ := h a List.mem_cons_self m
    obtain ⟨bs, m₂, hbs, hfbs⟩ := ih (fun c hc => h c (List.mem_cons_of_mem a hc)) m₁
    refine ⟨b :: bs, m₂, ?_, ?_⟩
    · simp only [List.mapM_cons]
      exact hb.bind (hbs.bind (const _ m₂))
    · rw [List.map_cons, List.map_cons, hfb, hfbs]

end Yields

namespace Ends

variable {run : Nat → EvalM α} {k : Nat → α → EvalM β} {m : Memory}

/-- What takes no fuel ends. -/
lemma const {x : EvalM α} (h : (outcome x m).1 ≠ .error .outOfFuel) : Ends (fun _ => x) m :=
  ⟨_, .const x m, h⟩

/-- A value at hand is an answer. -/
lemma pure (a : α) : Ends (fun _ => pure a) m :=
  const nofun

/-- Stopping is an answer, unless the cause is the lack of fuel. -/
lemma throw {e : EvalError} (h : e ≠ .outOfFuel) : Ends (fun _ => (throw e : EvalM α)) m :=
  const fun he => h (by cases he; rfl)

/-- Work on the memory always has a result. -/
lemma liftState (x : StateM Memory α) : Ends (fun _ => (liftM x : EvalM α)) m :=
  const nofun

/-- A calculation has an answer, unless it says that fuel is lacking. -/
lemma liftExcept {x : Except EvalError α} (h : x ≠ .error .outOfFuel) :
    Ends (fun _ => (liftM x : EvalM α)) m :=
  const h

/-- A value that is yielded is an answer. -/
lemma of_ok {a : α} {m' : Memory} (h : Yields run m (.ok a, m')) : Ends run m :=
  ⟨_, h, nofun⟩

/-- An answer with one unit of fuel to spare is an answer. -/
lemma of_succ (h : Ends (fun fuel => run (fuel + 1)) m) : Ends run m := by
  obtain ⟨r, h, hr⟩ := h
  exact ⟨r, h.of_succ, hr⟩

/-- Of a sequence, the first part has to end, and then the rest after every value it yields. -/
lemma bind (h : Ends run m)
    (hk : ∀ a m', Yields run m (.ok a, m') → Ends (fun fuel => k fuel a) m') :
    Ends (fun fuel => run fuel >>= k fuel) m := by
  obtain ⟨⟨e | a, m'⟩, h, hr⟩ := h
  · refine ⟨(.error e, m'), h.bind_error, fun he => hr ?_⟩
    cases he
    rfl
  · obtain ⟨r, hk, hr⟩ := hk a m' h
    exact ⟨r, h.bind hk, hr⟩

/-- A list is gone through to its end, or to the first element that stops. -/
lemma mapM {run : Nat → α → EvalM β} {l : List α} (h : ∀ a ∈ l, ∀ m, Ends (fun fuel => run fuel a) m)
    (m : Memory) : Ends (fun fuel => l.mapM (run fuel)) m := by
  induction l generalizing m with
  | nil =>
    simp only [List.mapM_nil]
    exact pure _
  | cons a l ih =>
    simp only [List.mapM_cons]
    refine bind (h a List.mem_cons_self m) fun b m' _ => ?_
    refine bind (ih (fun c hc => h c (List.mem_cons_of_mem a hc)) m') fun bs m'' _ => ?_
    exact pure _

/-- Below the guard there is one level less to go. -/
lemma guarded {env : Env} {context : String} {run : Nat → Env → EvalM α}
    (h : env.depth < env.options.maxDepth → Ends (fun fuel => run fuel env.deeper) m) :
    Ends (fun fuel => env.guarded context (run fuel)) m := by
  unfold Env.guarded
  split
  · next hlt => exact h hlt
  · exact throw nofun

end Ends

end Stylesheet
