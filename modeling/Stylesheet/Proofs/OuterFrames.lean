import Mathlib.Data.List.Forall2
import Stylesheet.Evaluation.Basic
import Stylesheet.Proofs.Search

/-!
# Frames further out

A name is looked up from the innermost frame outward, and the first frame that knows it decides. So
frames further out can only settle what would have no value without them: a value that the inner frames
resolve is the same whatever lies beyond them (`evaluator_ignoresOuter`). The runs are the same to the
last search, so they also leave the same memory, and nothing is asked of the memory they start from.

This is about values without blocks in them. A mixin call that finds nothing is no fault, so the rules
of a block may well change when another frame comes to surround it.

* `Persists x y`: whatever value `x` ends with, `y` ends with.
* **Frames further out change no value that the inner frames resolve** (`evaluate_outer_frames`). In the
  call of a captured definition these inner frames are the body, its parameters, the blocks around it
  and the closure; the frames further out are those of the place where the call stands.
-/

namespace Stylesheet

variable {α β : Type}

/-! ## Values, and blocks that declare only values

A block that is evaluated may call mixins, and a call that finds nothing in the inner frames may find
something further out. So blocks have to be kept out of the values, and out of the values of what is
declared. -/

/-- No block stands in the node. -/
inductive Node.BlockFree : Node → Prop
  | intro {n : Node} (shape : n.shape.isBlock = false) (values : ∀ k ∈ n.values, Node.BlockFree k) :
      Node.BlockFree n

/-- What is declared in the block, and in the blocks nested in it, are values without blocks. -/
inductive Block.DeclaresValues : Block → Prop
  | intro {b : Block} (declarations : ∀ d, Node.declaration d ∈ b.rules → d.value.BlockFree)
      (children : ∀ c, Node.block c ∈ b.rules → Block.DeclaresValues c) : Block.DeclaresValues b

/-- The same of all blocks of a scope. -/
def Scope.DeclaresValues (scope : Scope) : Prop :=
  ∀ b ∈ scope, b.DeclaresValues

/-- The parts of a node without blocks are without blocks. -/
lemma Node.BlockFree.of_mem_values {n k : Node} (h : n.BlockFree) (hk : k ∈ n.values) :
    k.BlockFree := by
  obtain ⟨-, values⟩ := h
  exact values k hk

namespace Block.DeclaresValues

variable {b : Block}

/-- A nested block declares values without blocks if the block around it does. -/
lemma of_mem_rules (h : b.DeclaresValues) {c : Block} (hc : Node.block c ∈ b.rules) :
    c.DeclaresValues := by
  obtain ⟨-, children⟩ := h
  exact children c hc

/-- Any declaration that is looked for in the block has a value without blocks. -/
lemma find? {test : Declaration → Bool} {d : Declaration} (h : b.DeclaresValues)
    (hd : (b.rules.filterMap Node.declaration?).reverse.find? test = some d) :
    d.value.BlockFree := by
  obtain ⟨declarations, -⟩ := h
  have hmem : d ∈ b.rules.filterMap Node.declaration? :=
    List.mem_reverse.mp (List.mem_of_find?_eq_some hd)
  obtain ⟨r, hr, hrd⟩ := List.mem_filterMap.mp hmem
  cases r with
  | declaration d' =>
    cases hrd
    exact declarations d hr
  | _ => cases hrd

end Block.DeclaresValues

namespace Scope.DeclaresValues

variable {scope : Scope}

/-- A scope with one more such block. -/
lemma cons {b : Block} (hb : b.DeclaresValues) (h : Scope.DeclaresValues scope) :
    Scope.DeclaresValues (b :: scope) :=
  List.forall_mem_cons.mpr ⟨hb, h⟩

/-- The value of a variable that is found in such a scope is without blocks. -/
lemma lookup {d : Declaration} {name : String} (h : Scope.DeclaresValues scope)
    (hd : scope.lookup? name = some d) : d.value.BlockFree := by
  obtain ⟨b, hb, hd⟩ := List.exists_of_findSome?_eq_some hd
  exact (h b hb).find? hd

end Scope.DeclaresValues

/-! ## What frames further out leave alone

A search that succeeds stops at the frame where it does. `Persists` says nothing of runs that fail: with
more frames there may well be a value where there was none. -/

/-- A variable that the scope declares is found there. -/
lemma Scope.lookup?_append {scope : Scope} {name : String} {d : Declaration}
    (h : scope.lookup? name = some d) (outer : Scope) :
    Scope.lookup? (scope ++ outer) name = some d := by
  rw [Scope.lookup?] at h ⊢
  rw [List.findSome?_append, h, Option.some_or]

/-- A search that finds something in the scope does not go further. -/
lemma resolve_append {s : Selector} {withArgs : Bool} {scope : Scope} {m : Memory}
    (h : ((resolve s withArgs scope).run m).1 ≠ []) (outer : Scope) :
    (resolve s withArgs (scope ++ outer)).run m = (resolve s withArgs scope).run m := by
  induction scope generalizing m with
  | nil => exact absurd rfl h
  | cons frame rest ih =>
    rw [List.cons_append, resolve, resolve, StateT.run_bind, StateT.run_bind]
    rw [resolve, StateT.run_bind] at h
    generalize (frame.find s).run m = found at h ⊢
    obtain ⟨found, m₁⟩ := found
    dsimp only [bind, Id.run] at h ⊢
    split at h
    · next hempty =>
      rw [if_pos hempty, if_pos hempty]
      exact ih h
    · next hsome => rw [if_neg hsome, if_neg hsome]

/-- Whatever value `x` ends with, `y` ends with it and leaves the same memory. -/
def Persists (x y : EvalM α) : Prop :=
  ∀ ⦃m m' : Memory⦄ ⦃a : α⦄, outcome x m = (.ok a, m') → outcome y m = (.ok a, m')

namespace Persists

variable {x y : EvalM α} {k l : α → EvalM β}

/-- A computation ends as itself. -/
lemma refl (x : EvalM α) : Persists x x :=
  fun _ _ _ h => h

/-- There is nothing to keep where no value is reached. -/
lemma throw (e : EvalError) (y : EvalM α) : Persists (throw e) y := by
  intro m m' a h
  cases h

/-- If both steps keep their values, so do they together. -/
lemma bind (hx : Persists x y) (hk : ∀ a, Persists (k a) (l a)) :
    Persists (x >>= k) (y >>= l) := by
  intro m m'' b h
  obtain ⟨a, m', ha, hb⟩ := outcome_bind_ok.mp h
  exact outcome_bind_ok.mpr ⟨a, m', hx ha, hk a hb⟩

/-- So does a whole list. -/
lemma mapM {f g : α → EvalM β} {as : List α} (h : ∀ a ∈ as, Persists (f a) (g a)) :
    Persists (as.mapM f) (as.mapM g) := by
  induction as with
  | nil => exact refl _
  | cons a as ih =>
    rw [List.mapM_cons, List.mapM_cons]
    apply (h a List.mem_cons_self).bind
    intro b
    apply (ih fun c hc => h c (List.mem_cons_of_mem a hc)).bind
    intro bs
    exact refl _

/-- The guard lets both runs through or stops both. -/
lemma guarded {env : Env} {context : String} {run run' : Env → EvalM α}
    (h : Persists (run env.deeper) (run' env.deeper)) :
    Persists (env.guarded context run) (env.guarded context run') := by
  unfold Env.guarded
  split
  · exact h
  · exact refl _

end Persists

/-- Frames further out change no value that the evaluator gives. -/
def Evaluator.IgnoresOuter (ev : Evaluator) : Prop :=
  ∀ (env : Env) {n : Node} {scope : Scope} (outer : Scope), n.BlockFree →
    Scope.DeclaresValues scope → Persists (ev.node env scope n) (ev.node env (scope ++ outer) n)

section rules

variable {ev : Evaluator} (hev : ev.IgnoresOuter) (env : Env) {scope : Scope}
  (hscope : Scope.DeclaresValues scope) (outer : Scope)

include hev hscope

/-- A variable that is found in the inner frames is found there first. -/
lemma Evaluator.reference_persists (name : String) :
    Persists (ev.reference env scope name) (ev.reference env (scope ++ outer) name) := by
  unfold Evaluator.reference
  cases hd : scope.lookup? name with
  | none => exact .throw _ _
  | some d =>
    rw [Scope.lookup?_append hd]
    dsimp only
    split
    · exact .refl _
    · exact .guarded (hev _ outer (hscope.lookup hd) hscope)

/-- An accessor that finds its block in the inner frames finds it there first. What the block declares is
then evaluated in its own scope, further out by the same frames. -/
lemma Evaluator.accessor_persists (a : Accessor) :
    Persists (ev.accessor env scope a) (ev.accessor env (scope ++ outer) a) := by
  intro m m' v h
  obtain ⟨found, m₁, hfound, hv⟩ := outcome_bind_ok.mp h
  have hdeclares : ∀ f ∈ found, f.All Block.DeclaresValues := by
    have hall := resolve_all (Q := Block.DeclaresValues)
      (fun b c hb hc => hb.of_mem_rules hc) a.selector false hscope
    exact (Ensures.liftState (E := fun _ => True) hall).value hfound
  cases found with
  | nil => cases hv
  | cons first rest =>
    have hsome : ((resolve a.selector false scope).run m).1 = first :: rest := by
      rw [outcome_liftState] at hfound
      injection hfound with hok
      injection hok
    have hfound' : outcome (liftM (resolve a.selector false (scope ++ outer)) : EvalM (List Match)) m =
        (.ok (first :: rest), m₁) := by
      rw [outcome_liftState, resolve_append (by rw [hsome]; exact List.cons_ne_nil _ _)]
      exact hfound
    rw [Evaluator.accessor]
    refine (outcome_bind_of_ok hfound').trans ?_
    dsimp only at hv ⊢
    cases hd : first.block.lastNamed? a.key.name with
    | none =>
      rw [hd] at hv
      cases hv
    | some d =>
      rw [hd] at hv
      have hblock := (hdeclares first List.mem_cons_self).block
      exact Persists.guarded (hev _ outer (hblock.find? hd) (hscope.cons hblock)) hv

/-- Frames further out change no value that the rules for nodes give. Only variables and accessors look at
the scope; the other rules pass on what their parts do. -/
lemma Node.evaluateWith_persists {n : Node} (hn : n.BlockFree) :
    Persists (n.evaluateWith ev env scope) (n.evaluateWith ev env (scope ++ outer)) := by
  have hvalues : ∀ k ∈ n.values,
      Persists (ev.node env scope k) (ev.node env (scope ++ outer) k) :=
    fun k hk => hev env outer (hn.of_mem_values hk) hscope
  cases n with
  | text | quoted | number | color | comment | atImport | mixin => exact .refl _
  | expression items | list items => exact (Persists.mapM hvalues).bind fun _ => .refl _
  | var name => exact ev.reference_persists hev env hscope outer name
  | accessor a => exact ev.accessor_persists hev env hscope outer a
  | call name args => exact (Persists.mapM hvalues).bind fun _ => .refl _
  | declaration d => exact (hvalues d.value List.mem_cons_self).bind fun _ => .refl _
  | operation op left right =>
    have hleft := hvalues left (by simp [Node.values])
    have hright := hvalues right (by simp [Node.values])
    exact hleft.bind fun _ => hright.bind fun _ => .refl _
  | block b =>
    obtain ⟨hshape, -⟩ := hn
    cases hshape

end rules

/-- What the inner frames resolve stays, with any fuel. -/
theorem evaluator_ignoresOuter (fuel : Nat) : (evaluator fuel).IgnoresOuter := by
  induction fuel with
  | zero =>
    intro env n scope outer _ _
    exact .throw _ _
  | succ fuel ih =>
    intro env n scope outer hn hscope
    exact Node.evaluateWith_persists ih env hscope outer hn

/-! ## The frames of a call

The body of a mixin is evaluated with the frames of the call at the outer end of its scope. What is put
on top of them is named here, so that the body's frames can be told from those of the call. -/

/-- The scope in which the body of a mixin is evaluated. -/
def MixinCall.enterBody (ev : Evaluator) (env : Env) (scope : Scope) (call : MixinCall)
    (found : Match) : EvalM Scope := do
  let bodyScope ← enterEnclosing ev env scope call found.enclosing (found.block.captures ++ scope)
  enterParams ev env scope call call.args found.block bodyScope

/-- A definition is expanded by evaluating its block in the scope that was entered for it. -/
lemma MixinCall.expandMatch_eq (ev : Evaluator) (env : Env) (scope : Scope) (call : MixinCall)
    (found : Match) :
    expandMatch ev env scope call found = do
      let bodyScope ← call.enterBody ev env scope found
      return (← ev.block env bodyScope found.block).rules := by
  rw [MixinCall.expandMatch, MixinCall.enterBody, bind_assoc]
  rfl

/-- Parameters are bound in frames on top of the scope. -/
lemma MixinCall.enterParams_suffix (ev : Evaluator) (env : Env) (scope : Scope) (call : MixinCall)
    (args : List Argument) (b : Block) (bodyScope : Scope) :
    Ensures (enterParams ev env scope call args b bodyScope) (bodyScope <:+ ·) fun _ => True := by
  unfold MixinCall.enterParams
  split
  · exact .pure (List.suffix_refl bodyScope)
  · apply (Ensures.trivial _).bind
    intro bound _
    apply (Ensures.trivial _).bind
    intro frame _
    exact .pure (List.suffix_cons frame bodyScope)

/-- Enclosing definitions and their parameters are put on top of the scope. -/
lemma MixinCall.enterEnclosing_suffix (ev : Evaluator) (env : Env) (scope : Scope) (call : MixinCall)
    (enclosing : List Block) (bodyScope : Scope) :
    Ensures (enterEnclosing ev env scope call enclosing bodyScope) (bodyScope <:+ ·)
      fun _ => True := by
  induction enclosing generalizing bodyScope with
  | nil => exact .pure (List.suffix_refl bodyScope)
  | cons b rest ih =>
    rw [MixinCall.enterEnclosing]
    apply (enterParams_suffix ev env scope call [] b bodyScope).bind
    intro inner hinner
    exact (ih (b :: inner)).mono fun _ h => hinner.trans ((List.suffix_cons b inner).trans h)

/-- The closure and the frames of the call are at the outer end of the body's scope. -/
lemma MixinCall.enterBody_suffix (ev : Evaluator) (env : Env) (scope : Scope) (call : MixinCall)
    (found : Match) :
    Ensures (call.enterBody ev env scope found) (found.block.captures ++ scope <:+ ·)
      fun _ => True := by
  apply (enterEnclosing_suffix ev env scope call found.enclosing _).bind
  intro bodyScope hbodyScope
  exact (enterParams_suffix ev env scope call call.args found.block bodyScope).mono
    fun _ h => hbodyScope.trans h

/-- A block that is evaluated has its calls expanded first, and then each rule evaluated. -/
lemma Block.evaluateWith_ok {ev : Evaluator} {env : Env} {scope : Scope} {b c : Block} {m m' : Memory}
    (h : outcome (b.evaluateWith ev env scope) m = (.ok c, m')) :
    ∃ frame m₁, outcome (b.expandCalls ev env scope) m = (.ok frame, m₁) ∧
      List.Forall₂ (fun rule result => ∃ m₂ m₃,
        outcome (Block.evaluateRule ev env (frame :: scope) rule) m₂ = (.ok result, m₃))
        frame.rules c.rules := by
  obtain ⟨frame, m₁, hframe, h⟩ := outcome_bind_ok.mp h
  obtain ⟨rules, m₂, hrules, h⟩ := outcome_bind_ok.mp h
  cases h
  exact ⟨frame, m₁, hframe, outcome_mapM_ok hrules⟩

/-- A rule without blocks is evaluated as a node. -/
lemma Block.evaluateRule_of_blockFree {r : Node} (h : r.BlockFree) (ev : Evaluator) (env : Env)
    (scope : Scope) : Block.evaluateRule ev env scope r = ev.node env scope r := by
  obtain ⟨hshape, -⟩ := h
  cases r with
  | block child => cases hshape
  | _ => rfl

/-- **Frames further out change no value that the inner frames resolve.** From every memory, a value
that evaluates in a scope evaluates to the same in that scope with more frames further out. So in the
call of a captured definition, each rule of its body that the frames of the body, its parameters, the
blocks around it and the closure resolve is evaluated to what these frames make of it, wherever the call
stands. -/
theorem evaluate_outer_frames (fuel : Nat) (env : Env) :
    (∀ {n : Node} {scope : Scope} (outer : Scope) {m m' : Memory} {v : Node}, n.BlockFree →
      Scope.DeclaresValues scope → outcome (n.evaluate fuel env scope) m = (.ok v, m') →
      outcome (n.evaluate fuel env (scope ++ outer)) m = (.ok v, m')) ∧
    ∀ {call : MixinCall} {found : Match} {params : List Parameter} {closure callSite : Scope}
      {m m' : Memory} {results : List Node}, found.block.kind = .captured params closure →
      outcome (call.expandMatch (evaluator (fuel + 1)) env callSite found) m = (.ok results, m') →
      ∃ inner frame m₁ m₂,
        outcome (call.enterBody (evaluator (fuel + 1)) env callSite found) m =
          (.ok (inner ++ closure ++ callSite), m₁) ∧
        outcome (found.block.expandCalls (evaluator fuel) env (inner ++ closure ++ callSite)) m₁ =
          (.ok frame, m₂) ∧
        List.Forall₂ (fun rule result => ∃ m₃, rule.BlockFree →
          (outcome (rule.evaluate fuel env (frame :: inner ++ closure ++ callSite)) m₃).1 = .ok result ∧
          (Scope.DeclaresValues (frame :: inner ++ closure) → ∀ v,
            (outcome (rule.evaluate fuel env (frame :: inner ++ closure)) m₃).1 = .ok v → v = result))
          frame.rules results := by
  have hvalues : ∀ {n : Node} {scope : Scope} (outer : Scope) {m m' : Memory} {v : Node},
      n.BlockFree → Scope.DeclaresValues scope →
      outcome (n.evaluate fuel env scope) m = (.ok v, m') →
      outcome (n.evaluate fuel env (scope ++ outer)) m = (.ok v, m') :=
    fun outer _ _ _ hn hscope h => evaluator_ignoresOuter fuel env outer hn hscope h
  refine ⟨hvalues, ?_⟩
  intro call found params closure callSite m m' results hkind h
  rw [MixinCall.expandMatch_eq] at h
  obtain ⟨bodyScope, m₁, hbodyScope, h⟩ := outcome_bind_ok.mp h
  obtain ⟨body, m₂, hbody, h⟩ := outcome_bind_ok.mp h
  cases h
  have hcaptures : found.block.captures = closure := by rw [Block.captures, hkind]; rfl
  -- whatever was entered lies on top of the closure and of the frames of the call
  obtain ⟨inner, rfl⟩ : ∃ inner, inner ++ closure ++ callSite = bodyScope := by
    obtain ⟨inner, hinner⟩ := (call.enterBody_suffix _ env callSite found).value hbodyScope
    refine ⟨inner, ?_⟩
    rw [List.append_assoc, ← hcaptures]
    exact hinner
  obtain ⟨frame, m₃, hframe, hrules⟩ := Block.evaluateWith_ok hbody
  refine ⟨inner, frame, m₁, m₃, hbodyScope, hframe, hrules.imp ?_⟩
  rintro rule result ⟨m₄, m₅, hrule⟩
  refine ⟨m₄, fun hfree => ?_⟩
  rw [Block.evaluateRule_of_blockFree hfree] at hrule
  refine ⟨congrArg Prod.fst hrule, fun hdeclares v hv => ?_⟩
  have hfull := hvalues callSite hfree hdeclares (Prod.ext hv rfl)
  have hsame : Except.ok v = Except.ok result :=
    (congrArg Prod.fst hfull).symm.trans (congrArg Prod.fst hrule)
  cases hsame
  rfl

/-- A block in which a property refers to a variable, and that variable to another one. -/
def Block.chainSample (word : String) : Block :=
  ⟨0, [], [.block ⟨1, [⟨[⟨.descendant, ".k"⟩]⟩], [.declaration (.plain "size" (.var "@w"))], .plain⟩,
    .declaration (.plain "@w" (.var "@b")), .declaration (.plain "@b" (.text word))], .plain⟩

/-- A definition that was captured where `@b` is red. -/
def Match.capturedSample : Match :=
  ⟨⟨2, [⟨[⟨.descendant, ".m"⟩]⟩],
    [.declaration (.plain "color" (.var "@w")), .declaration (.plain "width" (.var "@x"))],
    .captured [.required "@x"] [.chainSample "red"]⟩, []⟩

/-- A call of it with an argument. -/
def MixinCall.argumentSample : MixinCall :=
  ⟨⟨[⟨.descendant, ".m"⟩]⟩, [.positional (.text "wide")]⟩

/-- All that is declared in the sample are texts and variables. -/
lemma Block.chainSample_declaresValues (word : String) : (Block.chainSample word).DeclaresValues := by
  have hleaf : ∀ {n : Node}, n.shape.isBlock = false → n.values = [] → n.BlockFree :=
    fun hshape hvalues => .intro hshape (by simp [hvalues])
  refine .intro ?_ ?_
  · simp only [Block.chainSample, List.mem_cons, List.not_mem_nil, or_false, reduceCtorEq, false_or,
      Node.declaration.injEq, forall_eq_or_imp, forall_eq]
    exact ⟨hleaf rfl rfl, hleaf rfl rfl⟩
  · simp only [Block.chainSample, List.mem_cons, List.not_mem_nil, or_false, reduceCtorEq,
      Node.block.injEq, forall_eq]
    refine .intro ?_ (by simp)
    simp only [List.mem_singleton, Node.declaration.injEq, forall_eq]
    exact hleaf rfl rfl

/-- Where `@b` is red, an accessor and a variable that lead to it are red, though it is blue further out;
and so is the property of a mixin that was captured there and is called where `@b` is blue. -/
theorem evaluate_outer_frames_chainSample :
    (∃ m', outcome (Node.evaluate 8 {} ([.chainSample "red"] ++ [.chainSample "blue"])
        (.list [.accessor ⟨⟨[⟨.descendant, ".k"⟩]⟩, .property "size"⟩, .var "@w"])) .empty =
          (.ok (.list [.text "red", .text "red"]), m')) ∧
      ∃ (inner : Scope) (frame : Block),
        List.Forall₂ (fun rule result => ∃ m₃, Node.BlockFree rule →
          (outcome (rule.evaluate 7 {}
            (frame :: inner ++ [.chainSample "red"] ++ [.chainSample "blue"])) m₃).1 = .ok result ∧
          (Scope.DeclaresValues (frame :: inner ++ [.chainSample "red"]) → ∀ v,
            (outcome (rule.evaluate 7 {} (frame :: inner ++ [.chainSample "red"])) m₃).1 = .ok v →
              v = result))
          frame.rules
          [.declaration (.plain "color" (.text "red")), .declaration (.plain "width" (.text "wide"))] := by
  have hscope : Scope.DeclaresValues [.chainSample "red"] := by
    intro b hb
    rw [List.mem_singleton.mp hb]
    exact Block.chainSample_declaresValues "red"
  have hfree : Node.BlockFree
      (.list [.accessor ⟨⟨[⟨.descendant, ".k"⟩]⟩, .property "size"⟩, .var "@w"]) := by
    refine .intro rfl ?_
    simp only [Node.values, List.mem_cons, List.not_mem_nil, or_false, forall_eq_or_imp, forall_eq]
    exact ⟨.intro rfl (by simp [Node.values]), .intro rfl (by simp [Node.values])⟩
  have hinner : ∃ m', outcome (Node.evaluate 8 {} [.chainSample "red"]
      (.list [.accessor ⟨⟨[⟨.descendant, ".k"⟩]⟩, .property "size"⟩, .var "@w"])) .empty =
        (.ok (.list [.text "red", .text "red"]), m') := ⟨_, rfl⟩
  have hkind : Match.capturedSample.block.kind =
      .captured [.required "@x"] [.chainSample "red"] := rfl
  have hcall : ∃ m', outcome (MixinCall.argumentSample.expandMatch (evaluator (7 + 1)) {}
      [.chainSample "blue"] .capturedSample) .empty =
        (.ok [.declaration (.plain "color" (.text "red")), .declaration (.plain "width" (.text "wide"))],
          m') := ⟨_, rfl⟩
  obtain ⟨m₁, hinner⟩ := hinner
  obtain ⟨m₂, hcall⟩ := hcall
  obtain ⟨inner, frame, -, -, -, -, hrules⟩ := (evaluate_outer_frames 7 {}).2 hkind hcall
  have houter := (evaluate_outer_frames 8 {}).1 [.chainSample "blue"] hfree hscope hinner
  exact ⟨⟨m₁, houter⟩, inner, frame, hrules⟩

end Stylesheet
