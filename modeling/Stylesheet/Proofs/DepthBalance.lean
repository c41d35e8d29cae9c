import Stylesheet.Proofs.DepthCounter
import Stylesheet.Proofs.Leniency

/-!
# The depth counter is balanced

Evaluation with a counter in the environment (`Counted`) and evaluation in environments that are handed
on are one and the same, and with the counter all is in order at each moment.

* `Realizes env x y`: from the environment `env`, the counting computation `x` ends as `y` does, with
  the same value or cause and the same memory. It leaves the environment that it has found, and on the
  way the counter has made only environments that differ from it in depth and are within the limit.
* **Every rule is realized** by the counting rule of the same name. The guard is where the counter
  moves: it counts down also after a cause (`Realizes.guarded`). All other rules only pass that on.
* **Any series of runs on one counter is balanced** (`Counted.series_balanced`): each of them starts
  in the same environment, whatever became of those before.
-/

namespace Stylesheet

variable {α β : Type}

/-- How a counting computation ends, and the counter that it leaves. -/
def counted (x : CountM α) (s : Counter) : Except EvalError α × Counter :=
  x.run.run s

/-- A counted run whose first step gives a value goes on with it. -/
lemma counted_bind_of_ok {x : CountM α} {k : α → CountM β} {s s' : Counter} {a : α}
    (h : counted x s = (.ok a, s')) : counted (x >>= k) s = counted (k a) s' := by
  unfold counted at h ⊢
  rw [ExceptT.run_bind, StateT.run_bind, h]
  rfl

/-- A counted run whose first step stops is over, and the counter is as that step has left it. -/
lemma counted_bind_of_error {x : CountM α} {k : α → CountM β} {s s' : Counter} {e : EvalError}
    (h : counted x s = (.error e, s')) : counted (x >>= k) s = (.error e, s') := by
  unfold counted at h ⊢
  rw [ExceptT.run_bind, StateT.run_bind, h]
  rfl

/-- An attempt never stops, and it keeps the counter that the attempted part has left. -/
lemma counted_attempt (x : CountM α) (s : Counter) :
    counted (CountM.attempt x) s = (.ok (counted x s).1, (counted x s).2) := rfl

/-- The second environment is the first one at a depth within the limit. -/
structure Env.Admits (env e : Env) : Prop where
  /-- The options are the same. -/
  options : e.options = env.options
  /-- Imports stand for the same trees. -/
  importer : e.importer = env.importer
  /-- The depth is within the limit. -/
  depth : e.depth ≤ env.options.maxDepth

/-- From the environment `env`, `x` ends as `y` does and leaves the environment as it was; the
environments that the counter makes on the way are admitted. -/
def Realizes (env : Env) (x : CountM α) (y : EvalM α) : Prop :=
  ∀ m trail, ∃ made, (∀ e ∈ made, env.Admits e) ∧
    counted x ⟨env, m, trail⟩ = ((outcome y m).1, ⟨env, (outcome y m).2, made ++ trail⟩)

namespace Realizes

variable {env : Env} {x : CountM α} {y : EvalM α} {k : α → CountM β} {l : α → EvalM β}

/-- A part that leaves the environment and the trail alone realizes its counterpart from every counter. -/
lemma of_still (h : ∀ m trail, counted x ⟨env, m, trail⟩ =
    ((outcome y m).1, ⟨env, (outcome y m).2, trail⟩)) : Realizes env x y :=
  fun m trail => ⟨[], by simp, h m trail⟩

/-- A value at hand touches no counter. -/
lemma pure (a : α) : Realizes env (pure a) (pure a) :=
  .of_still fun _ _ => rfl

/-- Stopping touches no counter: there is nothing to count down. -/
lemma throw (e : EvalError) : Realizes env (throw e : CountM α) (throw e) :=
  .of_still fun _ _ => rfl

/-- Work on the memory is the same work, and no environment is made. -/
lemma liftState (x : StateM Memory α) : Realizes env (liftM x) (liftM x) :=
  .of_still fun _ _ => rfl

/-- A calculation that can stop is the same calculation. -/
lemma liftExcept (x : Except EvalError α) : Realizes env (liftM x) (liftM x) :=
  .of_still fun _ _ => rfl

/-- Who reads the environment reads the one that is handed on. -/
lemma env_bind {k : Env → CountM β} {y : EvalM β} (h : Realizes env (k env) y) :
    Realizes env (CountM.env >>= k) y :=
  h

/-- One step after another: the counter is back at its environment in between, so the second step finds it
as its counterpart does. -/
lemma bind (hx : Realizes env x y) (hk : ∀ a, Realizes env (k a) (l a)) :
    Realizes env (x >>= k) (y >>= l) := by
  intro m trail
  obtain ⟨made, hmade, hx⟩ := hx m trail
  rcases hy : outcome y m with ⟨e | a, m'⟩
  · rw [hy] at hx
    exact ⟨made, hmade, by rw [counted_bind_of_error hx, outcome_bind_of_error hy]⟩
  · rw [hy] at hx
    obtain ⟨more, hmore, hk⟩ := hk a m' (made ++ trail)
    refine ⟨more ++ made, ?_, ?_⟩
    · intro e he
      exact (List.mem_append.mp he).elim (hmore e) (hmade e)
    · rw [counted_bind_of_ok hx, outcome_bind_of_ok hy, hk, List.append_assoc]

/-- A list is taken from left to right. -/
lemma mapM {f : α → CountM β} {g : α → EvalM β} (h : ∀ a, Realizes env (f a) (g a)) (as : List α) :
    Realizes env (as.mapM f) (as.mapM g) := by
  induction as with
  | nil =>
    rw [List.mapM_nil, List.mapM_nil]
    exact pure []
  | cons a as ih =>
    rw [List.mapM_cons, List.mapM_cons]
    exact (h a).bind fun _ => ih.bind fun _ => pure _

/-- **The guard is balanced.** It counts up and down again, also if what it guards stops, so the
environment it leaves is the one that it has found; the deeper one is on the trail, and is within the
limit. -/
lemma guarded {context : String} {x : CountM α} {run : Env → EvalM α}
    (h : Realizes env.deeper x (run env.deeper)) :
    Realizes env (CountM.guarded context x) (env.guarded context run) := by
  unfold CountM.guarded Env.guarded
  refine env_bind ?_
  split
  · next hlt =>
    intro m trail
    obtain ⟨made, hmade, hx⟩ := h m (env.deeper :: trail)
    have hup : counted (CountM.changeDepth (· + 1)) ⟨env, m, trail⟩ =
        (.ok (), ⟨env.deeper, m, env.deeper :: trail⟩) := rfl
    have hresult : counted (CountM.attempt x) ⟨env.deeper, m, env.deeper :: trail⟩ =
        (.ok (outcome (run env.deeper) m).1,
          ⟨env.deeper, (outcome (run env.deeper) m).2, made ++ env.deeper :: trail⟩) := by
      rw [counted_attempt, hx]
    have hdown : ∀ m' trail', counted (CountM.changeDepth (· - 1)) ⟨env.deeper, m', trail'⟩ =
        (.ok (), ⟨env, m', env :: trail'⟩) := fun _ _ => rfl
    refine ⟨env :: made ++ [env.deeper], ?_, ?_⟩
    · intro e he
      simp only [List.cons_append, List.mem_cons, List.mem_append, List.not_mem_nil, or_false] at he
      rcases he with rfl | he | rfl
      · exact ⟨rfl, rfl, Nat.le_of_lt hlt⟩
      · exact ⟨(hmade e he).options, (hmade e he).importer, (hmade e he).depth⟩
      · exact ⟨rfl, rfl, hlt⟩
    · rw [counted_bind_of_ok hup, counted_bind_of_ok hresult, counted_bind_of_ok (hdown _ _)]
      simp only [List.cons_append, List.append_assoc, List.nil_append]
      rfl
  · exact throw _

end Realizes

/-! ## The rules

One lemma for each rule of evaluation. Where a rule looks at its environment the counting rule reads the
same one (`Realizes.env_bind`), and parts are put together by `Realizes.bind`. -/

/-- In every environment, a counting evaluator does what an evaluator does. -/
structure Evaluator.CountedBy (ev : Evaluator) (cev : Counted.Evaluator) : Prop where
  /-- On nodes. -/
  node : ∀ env scope n, Realizes env (cev.node scope n) (ev.node env scope n)
  /-- On blocks. -/
  block : ∀ env scope b, Realizes env (cev.block scope b) (ev.block env scope b)

section rules

variable {ev : Evaluator} {cev : Counted.Evaluator} (hev : ev.CountedBy cev) (env : Env) (scope : Scope)

include hev

/-- The value of a variable is behind the guard. -/
lemma Evaluator.reference_realized (name : String) :
    Realizes env (Counted.reference cev scope name) (ev.reference env scope name) := by
  unfold Counted.reference Evaluator.reference
  cases scope.lookup? name with
  | none => exact .throw _
  | some d =>
    dsimp only
    split
    · exact .pure _
    · exact .guarded (hev.node env.deeper scope d.value)

/-- Arguments are evaluated one after the other, each from the environment that the last one has put back.
-/
lemma Evaluator.call_realized (name : String) (args : List Node) :
    Realizes env (Counted.call cev scope name args) (ev.call env scope name args) := by
  unfold Counted.call Evaluator.call
  refine (Realizes.mapM (hev.node env scope) args).bind fun values => ?_
  cases Builtin.ofName? name with
  | some builtin => exact .liftExcept _
  | none =>
    refine .env_bind ?_
    cases env.options.unknownFunctions with
    | fault => exact .throw _
    | passThrough => exact (Realizes.liftExcept _).bind fun printed => .pure _

/-- The value that an accessor reads is behind the guard, in the scope of the block that was found. -/
lemma Evaluator.accessor_realized (a : Accessor) :
    Realizes env (Counted.accessor cev scope a) (ev.accessor env scope a) := by
  unfold Counted.accessor Evaluator.accessor
  refine (Realizes.liftState _).bind fun found => ?_
  cases found with
  | nil => exact .throw _
  | cons first rest =>
    dsimp only
    cases first.block.lastNamed? a.key.name with
    | none => exact .throw _
    | some d => exact .guarded (hev.node env.deeper (first.block :: scope) d.value)

/-- Both operands are evaluated in the environment of the operation. -/
lemma Evaluator.operation_realized (op : Operator) (left right : Node) :
    Realizes env (Counted.operation cev scope op left right)
      (ev.operation env scope op left right) :=
  (hev.node env scope left).bind fun _ => (hev.node env scope right).bind fun _ => .liftExcept _

/-- The rules for nodes, constructor by constructor. -/
lemma Node.evaluateWith_realized (n : Node) :
    Realizes env (Counted.node cev scope n) (n.evaluateWith ev env scope) := by
  cases n with
  | expression items =>
    exact (Realizes.mapM (hev.node env scope) items).bind fun values => .pure _
  | list items => exact (Realizes.mapM (hev.node env scope) items).bind fun values => .pure _
  | var name => exact Evaluator.reference_realized hev env scope name
  | operation op left right => exact Evaluator.operation_realized hev env scope op left right
  | call name args => exact Evaluator.call_realized hev env scope name args
  | accessor a => exact Evaluator.accessor_realized hev env scope a
  | declaration d => exact (hev.node env scope d.value).bind fun value => .pure _
  | block b => exact (hev.block env scope b).bind fun c => .pure _
  | mixin call => exact .throw _
  | text | quoted | number | color | comment | atImport => exact .pure _

/-- Arguments are evaluated in the environment of the call, whichever slots they are for. -/
lemma MixinCall.fillSlots_realized (call : MixinCall) (params : List Parameter) (position : Nat)
    (named : Bool) (args : List Argument) (slots : List (Option Node)) :
    Realizes env (Counted.fillSlots cev scope call params position named args slots)
      (MixinCall.fillSlots ev env scope call params position named args slots) := by
  induction args generalizing position named slots with
  | nil => exact .pure _
  | cons arg rest ih =>
    rw [Counted.fillSlots, MixinCall.fillSlots]
    refine (Realizes.liftExcept _).bind fun slot => ?_
    exact (hev.node env scope arg.value).bind fun value => ih _ _ _

/-- A default is evaluated in the environment of the call, if the parameter got no argument. -/
lemma MixinCall.parameterValue_realized (call : MixinCall) (p : Parameter) (slot : Option Node) :
    Realizes env (Counted.parameterValue cev scope call p slot)
      (MixinCall.parameterValue ev env scope call p slot) := by
  cases slot with
  | some value => exact .pure _
  | none =>
    rw [Counted.parameterValue, MixinCall.parameterValue]
    cases p.default? with
    | some default => exact hev.node env scope default
    | none => exact .throw _

/-- Too many arguments stop both runs; otherwise the slots are filled and the parameters declared. -/
lemma MixinCall.bind_realized (call : MixinCall) (params : List Parameter) (args : List Argument) :
    Realizes env (Counted.bind cev scope call params args)
      (MixinCall.bind ev env scope call params args) := by
  unfold Counted.bind MixinCall.bind
  dsimp only
  split
  · exact .throw _
  · refine (MixinCall.fillSlots_realized hev env scope call params 0 false args _).bind
      fun slots => .mapM (fun (p, slot) => ?_) _
    exact (MixinCall.parameterValue_realized hev env scope call p slot).bind fun value => .pure _

/-- The frame of the parameters is made at the same point of both runs. -/
lemma MixinCall.enterParams_realized (call : MixinCall) (args : List Argument) (b : Block)
    (bodyScope : Scope) :
    Realizes env (Counted.enterParams cev scope call args b bodyScope)
      (MixinCall.enterParams ev env scope call args b bodyScope) := by
  unfold Counted.enterParams MixinCall.enterParams
  cases b.kind.params? with
  | none => exact .pure _
  | some params =>
    refine (MixinCall.bind_realized hev env scope call params args).bind fun bound => ?_
    exact (Realizes.liftState _).bind fun frame => .pure _

/-- Enclosing definitions are entered from the outside inwards. -/
lemma MixinCall.enterEnclosing_realized (call : MixinCall) (enclosing : List Block)
    (bodyScope : Scope) :
    Realizes env (Counted.enterEnclosing cev scope call enclosing bodyScope)
      (MixinCall.enterEnclosing ev env scope call enclosing bodyScope) := by
  induction enclosing generalizing bodyScope with
  | nil => exact .pure _
  | cons b rest ih =>
    rw [Counted.enterEnclosing, MixinCall.enterEnclosing]
    exact (MixinCall.enterParams_realized hev env scope call [] b bodyScope).bind fun _ => ih _

/-- A body is evaluated in the scope that was entered for it. -/
lemma MixinCall.expandMatch_realized (call : MixinCall) (found : Match) :
    Realizes env (Counted.expandMatch cev scope call found)
      (MixinCall.expandMatch ev env scope call found) := by
  refine (MixinCall.enterEnclosing_realized hev env scope call found.enclosing _).bind
    fun outer => ?_
  refine (MixinCall.enterParams_realized hev env scope call call.args found.block outer).bind
    fun bodyScope => ?_
  exact (hev.block env bodyScope found.block).bind fun body => .pure _

/-- Every definition that was found is expanded behind a guard of its own. -/
lemma MixinCall.evaluateWith_realized (call : MixinCall) :
    Realizes env (Counted.mixin cev scope call) (call.evaluateWith ev env scope) := by
  refine (Realizes.liftState _).bind fun found => ?_
  refine (Realizes.mapM (fun m => ?_) found).bind fun bodies => .pure _
  exact .guarded (MixinCall.expandMatch_realized hev env.deeper scope call m)

/-- The calls among the rules are expanded in turn; one that stops leaves the counter as it was. -/
lemma Block.expandCallsFrom_realized (frame : Block) (done rest : List Node) :
    Realizes env (Counted.expandCallsFrom cev scope frame done rest)
      (Block.expandCallsFrom ev env scope frame done rest) := by
  induction rest generalizing frame done with
  | nil => exact .pure _
  | cons rule rest ih =>
    cases rule with
    | mixin call =>
      rw [Counted.expandCallsFrom, Block.expandCallsFrom]
      refine (MixinCall.evaluateWith_realized hev env (frame :: scope) call).bind fun expanded => ?_
      exact (Realizes.liftState _).bind fun rebuilt => ih _ _
    | _ => exact ih _ _

/-- All calls of a block. -/
lemma Block.expandCalls_realized (b : Block) :
    Realizes env (Counted.expandCalls cev scope b) (b.expandCalls ev env scope) :=
  Block.expandCallsFrom_realized hev env scope b [] b.rules

/-- A rule of a block: definitions capture the scope, anything else is evaluated. -/
lemma Block.evaluateRule_realized (r : Node) :
    Realizes env (Counted.rule cev scope r) (Block.evaluateRule ev env scope r) := by
  cases r with
  | block child =>
    rw [Counted.rule, Block.evaluateRule]
    split
    · exact (Realizes.liftState _).bind fun captured => .pure _
    · exact hev.node env scope _
  | _ => exact hev.node env scope _

/-- The rules for blocks. -/
lemma Block.evaluateWith_realized (b : Block) :
    Realizes env (Counted.block cev scope b) (b.evaluateWith ev env scope) := by
  refine (Block.expandCalls_realized hev env scope b).bind fun frame => ?_
  refine (Realizes.mapM (Block.evaluateRule_realized hev env (frame :: scope)) frame.rules).bind
    fun rules => ?_
  exact .liftState _

end rules

/-- **Evaluation is realized by evaluation with a counter.** -/
theorem evaluator_countedBy (fuel : Nat) : (evaluator fuel).CountedBy (Counted.evaluator fuel) := by
  induction fuel with
  | zero => exact ⟨fun _ _ _ => .throw _, fun _ _ _ => .throw _⟩
  | succ fuel ih => exact ⟨Node.evaluateWith_realized ih, Block.evaluateWith_realized ih⟩

/-! ## Rendering

The same for rendering. Imports are replaced by recursion on the levels that are left, whereas the counter
knows the levels that were taken; the two come to the limit together. -/

/-- The levels that are left are a matter of the depth, and imports of nothing else. -/
lemma Imports.expandRules_deeper (env : Env) (levels : Nat) (rules : List Node) :
    Imports.expandRules env.deeper levels rules = Imports.expandRules env levels rules := by
  induction levels generalizing rules with
  | zero => rfl
  | succ levels ih =>
    rw [Imports.expandRules, Imports.expandRules]
    simp only [ih]
    rfl

/-- What is done rule by rule is lifted rule by rule. -/
lemma liftExcept_mapM (g : α → Except EvalError β) (as : List α) :
    (liftM (as.mapM g) : EvalM (List β)) = as.mapM fun a => (liftM (g a) : EvalM β) := by
  induction as with
  | nil => rfl
  | cons a as ih => simp only [List.mapM_cons, liftM_bind, liftM_pure, ih]

/-- Imports are replaced alike if what serves their trees is realized. -/
lemma Imports.expandWith_realized {env : Env} {cserve : String → Block → CountM (List Node)}
    {serve : String → Block → Except EvalError (List Node)}
    (h : ∀ path tree, Realizes env (cserve path tree) (liftM (serve path tree)))
    (rules : List Node) :
    Realizes env (Counted.expandWith cserve rules) (liftM (Imports.expandWith env serve rules)) := by
  unfold Counted.expandWith Imports.expandWith
  rw [liftM_bind, liftExcept_mapM]
  refine (Realizes.mapM (fun rule => ?_) rules).bind fun parts => .pure _
  cases rule.pendingImport? with
  | none => exact .pure _
  | some path =>
    refine .env_bind ?_
    dsimp only
    cases env.importTree? path with
    | none => exact .throw _
    | some tree => exact h path tree

/-- Imports count their levels down, and the guard counts the depth up. -/
lemma Imports.expandRules_realized {levels : Nat} {env : Env}
    (hlevels : levels = env.options.maxDepth - env.depth) (rules : List Node) :
    Realizes env (Counted.expandRules levels rules) (liftM (Imports.expandRules env levels rules)) := by
  induction levels generalizing env rules with
  | zero =>
    refine Imports.expandWith_realized (fun path tree => ?_) rules
    have hfull : ¬env.depth < env.options.maxDepth := by omega
    have hguard : env.guarded path (fun _ => throw .outOfFuel) =
        (liftM (.error (.recursionLimit env.options.maxDepth path) : Except EvalError (List Node)) :
          EvalM (List Node)) := if_neg hfull
    rw [← hguard]
    exact .guarded (.throw _)
  | succ levels ih =>
    refine Imports.expandWith_realized (fun path tree => ?_) rules
    have hroom : env.depth < env.options.maxDepth := by omega
    have hguard : env.guarded path (fun env => liftM (Imports.expandRules env levels tree.rules)) =
        (liftM (Imports.expandRules env levels tree.rules) : EvalM (List Node)) := by
      rw [Env.guarded, if_pos hroom, Imports.expandRules_deeper]
    rw [← hguard]
    exact .guarded (ih (by simp only [Env.deeper]; omega) tree.rules)

/-- Expanding the imports of a root, in as many rounds as there are levels left. -/
lemma Block.expandImports_realized (env : Env) (b : Block) :
    Realizes env (Counted.expandImports b) (b.expandImports env) := by
  unfold Counted.expandImports Block.expandImports
  split
  · refine .env_bind ((Imports.expandRules_realized rfl b.rules).bind fun rules => ?_)
    exact .liftState _
  · exact .pure _

section rendering

variable {ev : Evaluator} {cev : Counted.Evaluator} (hev : ev.CountedBy cev) (env : Env) (scope : Scope)

include hev

/-- A line of the output is printed from its evaluated rule. -/
lemma Block.renderLine_realized (r : Node) :
    Realizes env (Counted.renderLine cev scope r) (Block.renderLine ev env scope r) :=
  (hev.node env scope r).bind fun _ => (Realizes.liftExcept _).bind fun _ => .pure _

/-- A rule is printed, passed over or rendered as a nested block. -/
lemma Block.renderRule_realized {cinner : Block → CountM String} {inner : Block → EvalM String}
    (hinner : ∀ child, Realizes env (cinner child) (inner child)) (isRoot : Bool) (r : Node) :
    Realizes env (Counted.renderRule cev cinner scope isRoot r)
      (Block.renderRule ev inner env scope isRoot r) := by
  have hline := Block.renderLine_realized hev env scope r
  cases r with
  | block child =>
    rw [Counted.renderRule, Block.renderRule]
    split
    · exact .pure _
    · exact (hinner child).bind fun text => .pure _
  | comment text =>
    rw [Counted.renderRule, Block.renderRule]
    split
    · exact .pure _
    · exact hline
  | declaration d =>
    rw [Counted.renderRule, Block.renderRule]
    split
    · exact .pure _
    · exact hline
  | _ => exact hline

/-- The rules for rendering a block: its imports, its calls, and then its rules one by one, each from the
environment that the block was found in. -/
lemma Block.renderWith_realized {cinner : Scope → List Path → Block → CountM String}
    {inner : Env → Scope → List Path → Block → EvalM String}
    (hinner : ∀ scope context b, Realizes env (cinner scope context b) (inner env scope context b))
    (context : List Path) (b : Block) :
    Realizes env (Counted.renderWith cev cinner scope context b)
      (Block.renderWith ev inner env scope context b) := by
  -- What is done with the block once its imports are replaced.
  have hrest : ∀ (paths : List Path) (source : Block),
      Realizes env
        (do let frame ← Counted.expandCalls cev scope source
            let pieces ← frame.rules.mapM
              (Counted.renderRule cev (cinner (frame :: scope) paths) (frame :: scope) frame.isRoot)
            return Piece.assemble frame.isRoot paths pieces)
        (do let frame ← source.expandCalls ev env scope
            let pieces ← frame.rules.mapM
              (Block.renderRule ev (inner env (frame :: scope) paths) env (frame :: scope) frame.isRoot)
            return Piece.assemble frame.isRoot paths pieces) := by
    intro paths source
    refine (Block.expandCalls_realized hev env scope source).bind fun frame => ?_
    refine (Realizes.mapM (fun r => ?_) frame.rules).bind fun pieces => .pure _
    exact Block.renderRule_realized hev env _ (hinner _ _) frame.isRoot r
  unfold Counted.renderWith Block.renderWith
  dsimp only
  split
  · exact .pure _
  · split
    · exact (Block.expandImports_realized env b).bind (hrest _)
    · exact hrest _ b

end rendering

/-- **Rendering is realized by rendering with a counter.** -/
theorem Block.render_realized (fuel : Nat) (env : Env) (scope : Scope) (context : List Path)
    (b : Block) :
    Realizes env (Counted.render fuel scope context b) (Block.render fuel env scope context b) := by
  induction fuel generalizing scope context b with
  | zero => exact .throw _
  | succ fuel ih =>
    exact Block.renderWith_realized (evaluator_countedBy fuel) env scope ih context b

/-! ## Series of runs

Nothing sets the counter back between two tasks. That each of them starts where the first one did follows
from the balance of all guards before it. -/

/-- A task of either kind. -/
lemma Task.evaluate_realized (fuel : Nat) (env : Env) (task : Task) :
    Realizes env (Counted.task fuel task) (task.evaluate fuel env) := by
  have hev := evaluator_countedBy fuel
  cases task with
  | sheet b => exact (Block.render_realized fuel env [] [] b).bind fun text => .pure _
  | rendering scope context b =>
    exact (Block.render_realized fuel env scope context b).bind fun text => .pure _
  | block scope b => exact (hev.block env scope b).bind fun c => .pure _
  | node scope n => exact (hev.node env scope n).bind fun value => .pure _
  | call scope call =>
    exact (MixinCall.evaluateWith_realized hev env scope call).bind fun rules => .pure _

/-- The next task starts with the counter that the task before has left. -/
lemma Counted.series_cons (fuel : Nat) (task : Task) (tasks : List Task) (s : Counter) :
    (Counted.series fuel (task :: tasks)).run s =
      let first := counted (Counted.task fuel task) s
      let others := (Counted.series fuel tasks).run first.2
      ((s.env, first.1) :: others.1, others.2) := by
  rw [Counted.series, List.mapM_cons]
  rfl

/-- The first task is run from the memory, the others from what it has left there. -/
lemma Task.evaluateAll_cons (fuel : Nat) (env : Env) (task : Task) (tasks : List Task) (m : Memory) :
    (Task.evaluateAll fuel env (task :: tasks)).run m =
      let first := outcome (task.evaluate fuel env) m
      let others := (Task.evaluateAll fuel env tasks).run first.2
      (first.1 :: others.1, others.2) := by
  rw [Task.evaluateAll, List.mapM_cons]
  rfl

/-- A series of tasks: each of them starts in the environment of the first. -/
lemma Counted.series_realizes (fuel : Nat) (env : Env) (tasks : List Task) (m : Memory)
    (trail : List Env) :
    ∃ made, (∀ e ∈ made, env.Admits e) ∧
      (Counted.series fuel tasks).run ⟨env, m, trail⟩ =
        let ended := (Task.evaluateAll fuel env tasks).run m
        (ended.1.map (env, ·), ⟨env, ended.2, made ++ trail⟩) := by
  induction tasks generalizing m trail with
  | nil => exact ⟨[], by simp, rfl⟩
  | cons task tasks ih =>
    obtain ⟨made, hmade, hfirst⟩ := task.evaluate_realized fuel env m trail
    obtain ⟨more, hmore, hothers⟩ := ih (outcome (task.evaluate fuel env) m).2 (made ++ trail)
    refine ⟨more ++ made, ?_, ?_⟩
    · intro e he
      exact (List.mem_append.mp he).elim (hmore e) (hmade e)
    · rw [Counted.series_cons, Task.evaluateAll_cons, hfirst]
      simp only [hothers, List.map_cons, List.append_assoc]

/-- **The depth counter is balanced.** Take a counter whose depth is within the limit. Every task that
is run on it ends as it does where environments are handed on, with a value or for a cause, and
leaves the environment as it was; in between, the environment has never been more than another depth
within the limit. The same holds for every series of tasks, each of which starts in the environment
of the first. -/
theorem Counted.series_balanced (fuel : Nat) (s : Counter)
    (hs : s.env.depth ≤ s.env.options.maxDepth) :
    (∀ task : Task, ∃ made : List Env, (∀ e ∈ s.env :: made, s.env.Admits e) ∧
      counted (Counted.task fuel task) s =
        let ended := outcome (task.evaluate fuel s.env) s.memory
        (ended.1, ⟨s.env, ended.2, made ++ s.trail⟩)) ∧
    ∀ tasks : List Task, ∃ made : List Env, (∀ e ∈ s.env :: made, s.env.Admits e) ∧
      (Counted.series fuel tasks).run s =
        let ended := (Task.evaluateAll fuel s.env tasks).run s.memory
        (ended.1.map (s.env, ·), ⟨s.env, ended.2, made ++ s.trail⟩) := by
  have hstart : s.env.Admits s.env := ⟨rfl, rfl, hs⟩
  constructor
  · intro task
    obtain ⟨made, hmade, hrun⟩ := task.evaluate_realized fuel s.env s.memory s.trail
    exact ⟨made, List.forall_mem_cons.mpr ⟨hstart, hmade⟩, hrun⟩
  · intro tasks
    obtain ⟨made, hmade, hrun⟩ := Counted.series_realizes fuel s.env tasks s.memory s.trail
    exact ⟨made, List.forall_mem_cons.mpr ⟨hstart, hmade⟩, hrun⟩

/-- A rendering that stops two levels deep, in the variable of a mixin, and then a value that needs the
one level that is left. -/
theorem Counted.series_balanced_nestedSample :
    let env : Env := { options := { maxDepth := 2 }, depth := 1 }
    let root := Block.nestedSample (.text "wide")
    let tasks : List Task := [.sheet root, .node [root] (.var "@x")]
    env.depth ≤ env.options.maxDepth ∧
    ∃ made : List Env, (∀ e ∈ env :: made, env.Admits e) ∧
      (Counted.series 10 tasks).run ⟨env, .empty, []⟩ =
        ([(env, .error (.recursionLimit 2 "@x")), (env, .ok (.node (.text "wide")))],
          ⟨env, .empty, made⟩) := by
  intro env root tasks
  have hdepth : env.depth ≤ env.options.maxDepth := by decide
  have hends : (Task.evaluateAll 10 env tasks).run .empty =
      ([.error (.recursionLimit 2 "@x"), .ok (.node (.text "wide"))], .empty) := rfl
  obtain ⟨made, hmade, hrun⟩ := (Counted.series_balanced 10 ⟨env, .empty, []⟩ hdepth).2 tasks
  refine ⟨hdepth, made, hmade, ?_⟩
  rw [hrun]
  simp only [hends, List.map_cons, List.map_nil, List.append_nil]

end Stylesheet
