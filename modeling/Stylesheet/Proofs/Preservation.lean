import Stylesheet.Evaluation.Basic
import Stylesheet.Proofs.Faults
import Stylesheet.Proofs.Search

/-!
# What evaluation keeps

One statement for each rule of evaluation, all of one kind: if the scope and the node keep to a
grammar, then the result keeps to it and is finished, and a cause for which evaluation stops is one
that the grammar tolerates. From these, `evaluator_respects`: the evaluator built from all rules, with
any fuel, respects every grammar.

The statement about nodes says a little more, `Evaluated.origin`: the result may stand as a value, or
it has the shape of the node that was evaluated. This is what tells an evaluated rule from a block or
a comment that was put in its place.

The statement about expanded blocks (`Block.Expanded`) says where each rule comes from: it is a rule of
the block that is no mixin call, or it is an evaluated rule that a call stood for.
-/

namespace Stylesheet

/-- What is known of the value `v` of a node `n` in a place. -/
structure Evaluated (g : Grammar) (p : Place) (n v : Node) : Prop where
  /-- The value keeps to the grammar. -/
  conforms : v.Conforms g p
  /-- Nothing is left to evaluate in it. -/
  finished : v.Finished
  /-- It may stand as a value, or it is of the shape of the node. -/
  origin : v.Conforms g .value ∨ v.shape = n.shape
  /-- It is to other rules what the node was. -/
  role : n.role ≠ .other → v.role = n.role

/-- An evaluator whose results keep to a grammar and are finished, and whose causes are tolerated. -/
structure Evaluator.Respects (g : Grammar) (ev : Evaluator) : Prop where
  /-- A mixin call is not a node to evaluate, which matters only where blame does. -/
  node : ∀ {env : Env} {scope : Scope} {p : Place} {n : Node}, Scope.Conforms g scope →
    n.Conforms g p → (g.Strict → n.shape.isMixin = false) →
    Ensures (ev.node env scope n) (Evaluated g p n) g.Tolerates
  /-- A block stays what it is for. -/
  block : ∀ {env : Env} {scope : Scope} {b : Block}, Scope.Conforms g scope → b.Conforms g →
    Ensures (ev.block env scope b)
      (fun c => c.Conforms g ∧ c.Finished ∧ c.kind = b.kind) g.Tolerates

variable {g : Grammar} {ev : Evaluator} {env : Env} {scope : Scope}

/-- A node in value position has a value. -/
lemma Evaluator.Respects.value (hev : ev.Respects g) (hscope : Scope.Conforms g scope) {n : Node}
    (hn : n.Conforms g .value) :
    Ensures (ev.node env scope n) (fun v => v.Conforms g .value ∧ v.Finished) g.Tolerates :=
  (hev.node hscope hn hn.isMixin_eq_false).mono fun _ hv => ⟨hv.conforms, hv.finished⟩

/-- What is a value may replace a node in every place, if the node has no role among rules. -/
lemma Evaluated.of_value {p : Place} {n v : Node} (hn : n.role = .other) (hv : v.Conforms g .value)
    (hf : v.Finished) : Evaluated g p n v :=
  ⟨hv.at_place p, hf, .inl hv, fun h => absurd hn h⟩

/-! ## Values

What a variable or an accessor leads to was declared in a block of the scope, so it keeps to the grammar
because the scope does. -/

/-- What a search through a scope finds keeps to the grammar of the scope. -/
lemma resolve_conforms (hscope : Scope.Conforms g scope) (s : Selector) (withArgs : Bool) :
    Always (resolve s withArgs scope) fun found => ∀ f ∈ found, f.All (Block.Conforms g) :=
  resolve_all (fun _ _ hb hc => (hb.of_mem_rules hc).of_block) s withArgs hscope

/-- The items of an evaluated argument are evaluated, and they may stand as values. -/
lemma Evaluated.of_mem_items {a v : Node} (ha : a.Conforms g .value ∧ a.Finished)
    (hv : v ∈ a.items) : v.Conforms g .value ∧ v.Finished := by
  cases a with
  | expression items => exact ⟨ha.1.of_mem_values hv, ha.2.of_mem_values hv⟩
  | list items => exact ⟨ha.1.of_mem_values hv, ha.2.of_mem_values hv⟩
  | _ =>
    rw [List.mem_singleton.mp hv]
    exact ha

section rules

variable (hev : ev.Respects g) (hscope : Scope.Conforms g scope)

include hev hscope

/-- The value of a variable is one of the grammar, since it was declared in the scope. -/
lemma Evaluator.reference_respects (p : Place) (name : String) :
    Ensures (ev.reference env scope name) (Evaluated g p (.var name)) g.Tolerates := by
  unfold Evaluator.reference
  split
  · exact .throw (Grammar.tolerates_of_isUserError rfl)
  · next d hd =>
    have hvalue := hscope.lookup hd
    split
    · next hliteral => exact .pure (.of_value rfl hvalue (.of_isLiteral hliteral))
    · refine .guarded (Grammar.tolerates_of_isUserError rfl) ?_
      exact (hev.value hscope hvalue).mono fun v hv => .of_value rfl hv.1 hv.2

/-- A built-in function gives a scalar or an item of an argument, and a call that is passed through
becomes a text. -/
lemma Evaluator.call_respects (p : Place) {name : String} {args : List Node}
    (hargs : ∀ a ∈ args, a.Conforms g .value) :
    Ensures (ev.call env scope name args) (Evaluated g p (.call name args)) g.Tolerates := by
  unfold Evaluator.call
  refine (Ensures.mapM fun a ha => hev.value hscope (hargs a ha)).bind fun values hvalues => ?_
  split
  · next f hf =>
    have happly := f.apply_proper ⟨Text.lower name, values⟩
    refine .liftExcept (fun v hv => ?_) fun e he => ?_
    · rw [hv] at happly
      cases happly with
      | ok h =>
        rcases h with hscalar | ⟨a, ha, hitem⟩
        · exact .of_value rfl (hscalar.conforms g .value) hscalar.finished
        · have := Evaluated.of_mem_items (hvalues a ha) hitem
          exact .of_value rfl this.1 this.2
    · rw [he] at happly
      cases happly with
      | error h => exact Grammar.tolerates_of_isUserError h
  · split
    · exact .throw (Grammar.tolerates_of_isUserError rfl)
    · -- the call is printed: its arguments are evaluated, so only a block or call among them fails
      refine .bind (P := fun _ => True) (.liftExcept (fun _ _ => trivial) fun e he hg => ?_)
        fun printed _ => .pure (.of_value rfl (.text _) (.text _))
      obtain ⟨texts, htexts⟩ : ∃ texts, Node.toCssAll values = .ok texts :=
        Node.exists_toCssAll fun v hv =>
          (hvalues v hv).2.exists_toCss hg (hvalues v hv).1 ((hvalues v hv).1.isBlock_eq_false hg)
      rw [he] at htexts
      cases htexts

/-- The value that an accessor reads is one of the grammar, since it was declared in a block of the scope.
-/
lemma Evaluator.accessor_respects (p : Place) (a : Accessor) :
    Ensures (ev.accessor env scope a) (Evaluated g p (.accessor a)) g.Tolerates := by
  unfold Evaluator.accessor
  refine (Ensures.liftState (resolve_conforms hscope a.selector false)).bind fun found hfound => ?_
  split
  · exact .throw (Grammar.tolerates_of_isUserError rfl)
  · next first rest =>
    have hfirst := (hfound first List.mem_cons_self).block
    split
    · exact .throw (Grammar.tolerates_of_isUserError rfl)
    · next d hd =>
      refine .guarded (Grammar.tolerates_of_isUserError rfl) ?_
      exact (hev.value (hscope.cons hfirst) (hfirst.lastNamed hd)).mono
        fun v hv => .of_value rfl hv.1 hv.2

/-- An operation gives a number or a colour. -/
lemma Evaluator.operation_respects (p : Place) (op : Operator) {left right : Node}
    (hleft : left.Conforms g .value) (hright : right.Conforms g .value) :
    Ensures (ev.operation env scope op left right) (Evaluated g p (.operation op left right))
      g.Tolerates := by
  unfold Evaluator.operation
  refine (hev.value hscope hleft).bind fun a _ => ?_
  refine (hev.value hscope hright).bind fun b _ => ?_
  have hoperate := Node.operate_proper op a b
  refine .liftExcept (fun v hv => ?_) fun e he => ?_
  · rw [hv] at hoperate
    cases hoperate with
    | ok h => exact .of_value rfl (h.conforms g .value) h.finished
  · rw [he] at hoperate
    cases hoperate with
    | error h => exact Grammar.tolerates_of_isUserError h

/-- The rules for nodes respect the grammar, constructor by constructor: parts become values of the
grammar, and what is put together from them may stand where the node stood. -/
lemma Node.evaluateWith_respects {p : Place} {n : Node} (hn : n.Conforms g p)
    (hmixin : g.Strict → n.shape.isMixin = false) :
    Ensures (n.evaluateWith ev env scope) (Evaluated g p n) g.Tolerates := by
  cases n with
  | text | quoted | number | color | comment =>
    exact .pure ⟨hn, .of_isLiteral rfl, .inr rfl, fun _ => rfl⟩
  | atImport path => exact .pure ⟨hn, .atImport path, .inr rfl, fun _ => rfl⟩
  | expression items =>
    refine (Ensures.mapM fun i hi => hev.value hscope (hn.of_mem_values hi)).bind fun vs hvs => ?_
    exact .pure ⟨.expression hn.allowed fun v hv => (hvs v hv).1,
      .expression fun v hv => (hvs v hv).2, .inr rfl, fun _ => rfl⟩
  | list items =>
    refine (Ensures.mapM fun i hi => hev.value hscope (hn.of_mem_values hi)).bind fun vs hvs => ?_
    exact .pure ⟨.list hn.allowed fun v hv => (hvs v hv).1, .list fun v hv => (hvs v hv).2, .inr rfl,
      fun _ => rfl⟩
  | var name => exact ev.reference_respects hev hscope p name
  | operation op left right =>
    exact ev.operation_respects hev hscope p op (hn.of_mem_values (by simp [Node.values]))
      (hn.of_mem_values (by simp [Node.values]))
  | call name args => exact ev.call_respects hev hscope p fun a ha => hn.of_mem_values ha
  | accessor a => exact ev.accessor_respects hev hscope p a
  | declaration d =>
    refine (hev.value hscope (hn.of_mem_values List.mem_cons_self)).bind fun v hv => ?_
    exact .pure ⟨.declaration hn.allowed hv.1, .declaration hv.2, .inr rfl, fun _ => rfl⟩
  | block b =>
    refine (hev.block hscope hn.of_block).bind fun c hc => ?_
    obtain ⟨hconforms, hfinished, hkind⟩ := hc
    have hroot : c.isRoot = b.isRoot := by rw [Block.isRoot, hkind, Block.isRoot]
    refine .pure ⟨.block ?_ hconforms, .block hfinished, .inr ?_, fun _ => ?_⟩
    · rw [hroot]
      exact hn.allowed
    · rw [Node.shape, Node.shape, hroot]
    · rw [Node.role, Node.role, Block.isDefinition, hkind, Block.isDefinition]
  | mixin m =>
    refine .throw fun hg => ?_
    cases hmixin hg

/-! ## Mixin calls

The scope of a body is made of the frames of the call, of captured and enclosing blocks, and of frames for
parameters. All of them keep to the grammar, so the body is evaluated in a scope that does. -/

omit hev hscope in
/-- The frame of the parameters keeps to the grammar if what is bound does. -/
lemma MixinCall.argumentFrame_conforms {bound : List Node}
    (hbound : ∀ r ∈ bound, r.Conforms g .rule) :
    Always (MixinCall.argumentFrame bound) (Block.Conforms g) := by
  refine (Always.trivial _).bind fun stamp _ => .pure ?_
  refine .intro hbound ?_ ?_
  · intro d hd
    cases hd
  · intro c hc
    cases hc

/-- The slots are filled with values of the grammar. -/
lemma MixinCall.fillSlots_respects (call : MixinCall) (params : List Parameter) {args : List Argument}
    (hargs : ∀ a ∈ args, a.value.Conforms g .value) (position : Nat) (named : Bool)
    {slots : List (Option Node)} (hslots : ∀ v, some v ∈ slots → v.Conforms g .value) :
    Ensures (MixinCall.fillSlots ev env scope call params position named args slots)
      (fun filled => ∀ v, some v ∈ filled → v.Conforms g .value) g.Tolerates := by
  induction args generalizing position named slots with
  | nil => exact .pure hslots
  | cons arg rest ih =>
    rw [MixinCall.fillSlots]
    have hslot := call.slot_proper params position named arg
    refine .bind (P := fun _ => True) (.liftExcept (fun _ _ => trivial) fun e he => ?_)
      fun slot _ => ?_
    · rw [he] at hslot
      cases hslot with
      | error h => exact Grammar.tolerates_of_isUserError h
    · refine (hev.value hscope (hargs arg List.mem_cons_self)).bind fun value hvalue => ?_
      refine ih (fun a ha => hargs a (List.mem_cons_of_mem arg ha)) _ _ ?_
      intro v hv
      rcases List.mem_or_eq_of_mem_set hv with hv | hv
      · exact hslots v hv
      · cases hv
        exact hvalue.1

/-- A parameter gets the value in its slot, or that of its default. -/
lemma MixinCall.parameterValue_respects (call : MixinCall) {p : Parameter}
    (hp : ∀ d, p.default? = some d → d.Conforms g .value) {slot : Option Node}
    (hslot : ∀ v, slot = some v → v.Conforms g .value) :
    Ensures (MixinCall.parameterValue ev env scope call p slot) (Node.Conforms g .value)
      g.Tolerates := by
  cases slot with
  | some value => exact .pure (hslot value rfl)
  | none =>
    rw [MixinCall.parameterValue]
    split
    · next d hd => exact (hev.value hscope (hp d hd)).mono fun _ hv => hv.1
    · exact .throw (Grammar.tolerates_of_isUserError rfl)

/-- What is bound are declarations of such values. -/
lemma MixinCall.bind_respects (call : MixinCall) {params : List Parameter}
    (hparams : ∀ p ∈ params, ∀ d, p.default? = some d → d.Conforms g .value) {args : List Argument}
    (hargs : ∀ a ∈ args, a.value.Conforms g .value) :
    Ensures (MixinCall.bind ev env scope call params args)
      (fun bound => ∀ r ∈ bound, r.Conforms g .rule)
      g.Tolerates := by
  unfold MixinCall.bind
  dsimp only
  split
  · exact .bind (P := fun _ => False) (.throw (Grammar.tolerates_of_isUserError rfl)) nofun
  · refine (MixinCall.fillSlots_respects hev hscope call params hargs 0 false ?_).bind
      fun slots hslots => ?_
    · intro v hv
      cases List.eq_of_mem_replicate hv
    · refine Ensures.mapM fun (p, slot) hmem => ?_
      obtain ⟨hp, hslot⟩ := List.of_mem_zip hmem
      refine (MixinCall.parameterValue_respects hev hscope call (hparams p hp) ?_).bind
        fun value hvalue => .pure (.declaration g.declaration hvalue)
      intro v hv
      exact hslots v (hv ▸ hslot)

/-- The scope for a body has one more block of the grammar. -/
lemma MixinCall.enterParams_respects (call : MixinCall) {args : List Argument}
    (hargs : ∀ a ∈ args, a.value.Conforms g .value) {b : Block} (hb : b.Conforms g)
    {bodyScope : Scope} (hbody : Scope.Conforms g bodyScope) :
    Ensures (MixinCall.enterParams ev env scope call args b bodyScope) (Scope.Conforms g)
      g.Tolerates := by
  unfold MixinCall.enterParams
  split
  · exact .pure hbody
  · next params hparams =>
    refine (MixinCall.bind_respects hev hscope call (fun p hp d => hb.of_default hparams hp)
      hargs).bind fun bound hbound => ?_
    refine (Ensures.liftState (MixinCall.argumentFrame_conforms hbound)).bind fun frame hframe => ?_
    exact .pure (hbody.cons hframe)

/-- So it has for each enclosing definition. -/
lemma MixinCall.enterEnclosing_respects (call : MixinCall) {enclosing : List Block}
    (henclosing : ∀ e ∈ enclosing, e.Conforms g) {bodyScope : Scope}
    (hbody : Scope.Conforms g bodyScope) :
    Ensures (MixinCall.enterEnclosing ev env scope call enclosing bodyScope) (Scope.Conforms g)
      g.Tolerates := by
  induction enclosing generalizing bodyScope with
  | nil => exact .pure hbody
  | cons b rest ih =>
    rw [MixinCall.enterEnclosing]
    have hb := henclosing b List.mem_cons_self
    refine (MixinCall.enterParams_respects hev hscope call (by simp) hb hbody).bind
      fun inner hinner => ?_
    exact ih (fun e he => henclosing e (List.mem_cons_of_mem b he)) (hinner.cons hb)

/-- The rules of a body are evaluated and keep to the grammar. -/
lemma MixinCall.expandMatch_respects {call : MixinCall}
    (hcall : ∀ a ∈ call.args, a.value.Conforms g .value) {found : Match}
    (hfound : found.All (Block.Conforms g)) :
    Ensures (MixinCall.expandMatch ev env scope call found)
      (fun rules => ∀ r ∈ rules, r.Conforms g .rule ∧ r.FinishedRule) g.Tolerates := by
  unfold MixinCall.expandMatch
  have hbody : Scope.Conforms g (found.block.kind.closure?.getD [] ++ scope) :=
    Scope.Conforms.append hfound.block.captures hscope
  refine (MixinCall.enterEnclosing_respects hev hscope call hfound.enclosing hbody).bind
    fun outer houter => ?_
  refine (MixinCall.enterParams_respects hev hscope call hcall hfound.block houter).bind
    fun inner hinner => ?_
  refine (hev.block hinner hfound.block).bind fun b hb => .pure ?_
  intro r hr
  exact ⟨hb.1.of_mem_rules hr, hb.2.1 r hr⟩

/-- The rules that a mixin call stands for keep to the grammar and are evaluated. -/
lemma MixinCall.evaluateWith_respects {call : MixinCall}
    (hcall : ∀ a ∈ call.args, a.value.Conforms g .value) :
    Ensures (call.evaluateWith ev env scope)
      (fun rules => ∀ r ∈ rules, r.Conforms g .rule ∧ r.FinishedRule) g.Tolerates := by
  unfold MixinCall.evaluateWith
  refine (Ensures.liftState (resolve_conforms hscope call.selector _)).bind fun found hfound => ?_
  refine (Ensures.mapM (R := fun rules => ∀ r ∈ rules, r.Conforms g .rule ∧ r.FinishedRule)
    fun m hm => ?_).bind fun bodies hbodies => .pure ?_
  · refine .guarded (Grammar.tolerates_of_isUserError rfl) ?_
    exact MixinCall.expandMatch_respects hev hscope hcall (hfound m hm)
  · intro r hr
    obtain ⟨body, hbody, hr⟩ := List.mem_flatten.mp hr
    exact hbodies body hbody r hr

end rules

/-! ## Blocks

The loop that expands calls keeps an invariant on the block at hand: it keeps to the grammar, and each of
its rules up to the next call is an old rule or an evaluated one. -/

/-- What is known of the block `frame` in which the calls among the rules of `b` are expanded. -/
structure Block.Expanded (g : Grammar) (b frame : Block) : Prop where
  /-- It keeps to the grammar. -/
  conforms : frame.Conforms g
  /-- It is of the same kind. -/
  kind : frame.kind = b.kind
  /-- It has the same selectors. -/
  selectors : frame.selectors = b.selectors
  /-- Every rule is one that stood there and is no call, or an evaluated one. -/
  origin : ∀ r ∈ frame.rules, r ∈ b.rules ∧ r.shape.isMixin = false ∨ r.FinishedRule

/-- Rebuilding a block replaces its rules, and nothing else but the stamp. -/
lemma Block.rebuilt_spec (b : Block) (rules : List Node) :
    Always (b.rebuilt rules)
      fun c => c.kind = b.kind ∧ c.selectors = b.selectors ∧ c.rules = rules :=
  fun _ => ⟨rfl, rfl, rfl⟩

/-- Capturing changes only what a definition has captured. -/
lemma Block.capture_conforms {b : Block} (hb : b.Conforms g) (hscope : Scope.Conforms g scope) :
    Always (b.capture scope) fun c => c.Conforms g ∧ c.isDefinition = b.isDefinition ∧
      c.isRoot = b.isRoot := by
  obtain ⟨stamp, selectors, rules, kind⟩ := b
  cases kind with
  | definition params =>
    refine (Always.trivial _).bind fun stamp _ => .pure ⟨?_, rfl, rfl⟩
    exact .intro (fun r hr => hb.of_mem_rules hr) (fun d hd => hb.of_mem_defaults hd) hscope
  | root => exact .pure ⟨hb, rfl, rfl⟩
  | plain => exact .pure ⟨hb, rfl, rfl⟩
  | captured params closure => exact .pure ⟨hb, rfl, rfl⟩

/-- No evaluated rule is a mixin call. -/
lemma Node.FinishedRule.isMixin_eq_false {r : Node} (h : r.FinishedRule) :
    r.shape.isMixin = false := by
  cases r with
  | mixin m => cases (h rfl).notPending
  | _ => rfl

/-- No rule of an expanded block is a mixin call. -/
lemma Block.Expanded.isMixin_eq_false {b frame : Block} (h : b.Expanded g frame) {r : Node}
    (hr : r ∈ frame.rules) : r.shape.isMixin = false := by
  rcases h.origin r hr with ⟨-, hr⟩ | hr
  · exact hr
  · exact hr.isMixin_eq_false

/-- A rule that is no call stays where it is. -/
lemma Block.expandCallsFrom_of_not_mixin {rule : Node} (h : rule.shape.isMixin = false)
    (ev : Evaluator) (env : Env) (scope : Scope) (frame : Block) (done rest : List Node) :
    Block.expandCallsFrom ev env scope frame done (rule :: rest) =
      Block.expandCallsFrom ev env scope frame (done ++ [rule]) rest := by
  cases rule with
  | mixin call => cases h
  | _ => rw [Block.expandCallsFrom]; simp

/-- Rules that are no calls stay where they are. -/
lemma Block.expandCallsFrom_append {before : List Node} (h : ∀ r ∈ before, r.shape.isMixin = false)
    (ev : Evaluator) (env : Env) (scope : Scope) (frame : Block) (done rest : List Node) :
    Block.expandCallsFrom ev env scope frame done (before ++ rest) =
      Block.expandCallsFrom ev env scope frame (done ++ before) rest := by
  induction before generalizing done with
  | nil => rw [List.nil_append, List.append_nil]
  | cons rule before ih =>
    rw [List.cons_append, Block.expandCallsFrom_of_not_mixin (h rule List.mem_cons_self),
      ih fun r hr => h r (List.mem_cons_of_mem rule hr), List.append_assoc, List.singleton_append]

/-- Where no rule is a mixin call, there is nothing to expand. -/
lemma Block.expandCallsFrom_of_no_calls (ev : Evaluator) (env : Env) (scope : Scope) (frame : Block)
    (done : List Node) {rest : List Node} (h : ∀ r ∈ rest, r.shape.isMixin = false) :
    Block.expandCallsFrom ev env scope frame done rest = pure frame := by
  have happend := Block.expandCallsFrom_append h ev env scope frame done []
  rwa [List.append_nil, Block.expandCallsFrom] at happend

/-- A rule that is no definition is evaluated as a node. -/
lemma Block.evaluateRule_of_not_definition {r : Node} (h : r.isDefinition = false) (ev : Evaluator)
    (env : Env) (scope : Scope) : Block.evaluateRule ev env scope r = ev.node env scope r := by
  cases r with
  | block child =>
    rw [Node.isDefinition] at h
    rw [Block.evaluateRule, h]
    rfl
  | _ => rfl

/-- A block in which rules of the grammar have taken the place of one rule. -/
lemma Block.Conforms.spliced {frame next : Block} {done expanded rest : List Node} {rule : Node}
    (h : frame.Conforms g) (hrules : frame.rules = done ++ rule :: rest)
    (hexpanded : ∀ r ∈ expanded, r.Conforms g .rule) (hkind : next.kind = frame.kind)
    (hnext : next.rules = done ++ expanded ++ rest) : next.Conforms g := by
  refine h.of_rules hkind ?_
  intro r hr
  rw [hnext, List.mem_append, List.mem_append] at hr
  rcases hr with (hr | hr) | hr
  · exact h.of_mem_rules (by rw [hrules]; exact List.mem_append_left _ hr)
  · exact hexpanded r hr
  · exact h.of_mem_rules (by rw [hrules]; simp [hr])

section blocks

variable (hev : ev.Respects g) (hscope : Scope.Conforms g scope)

include hev hscope

/-- The loop that expands calls: `done` holds expanded rules, `rest` rules of the block `b`. By induction
on `rest`, with the frame growing by what each call stands for. -/
lemma Block.expandCallsFrom_respects {b frame : Block} {done rest : List Node}
    (hframe : frame.Conforms g) (hkind : frame.kind = b.kind)
    (hselectors : frame.selectors = b.selectors) (hrules : frame.rules = done ++ rest)
    (hdone : ∀ r ∈ done, r ∈ b.rules ∧ r.shape.isMixin = false ∨ r.FinishedRule)
    (hrest : ∀ r ∈ rest, r ∈ b.rules) :
    Ensures (Block.expandCallsFrom ev env scope frame done rest) (b.Expanded g) g.Tolerates := by
  induction rest generalizing frame done with
  | nil =>
    rw [Block.expandCallsFrom]
    rw [List.append_nil] at hrules
    exact .pure ⟨hframe, hkind, hselectors, fun r hr => hdone r (hrules ▸ hr)⟩
  | cons rule rest ih =>
    have hrest' : ∀ r ∈ rest, r ∈ b.rules := fun r hr => hrest r (List.mem_cons_of_mem rule hr)
    have hrule : rule.Conforms g .rule := hframe.of_mem_rules (by rw [hrules]; simp)
    by_cases hmixin : rule.shape.isMixin = true
    · cases rule with
      | mixin call =>
        rw [Block.expandCallsFrom]
        have hargs : ∀ a ∈ call.args, a.value.Conforms g .value := fun a ha =>
          hrule.of_mem_values (List.mem_map_of_mem ha)
        refine (MixinCall.evaluateWith_respects hev (hscope.cons hframe) hargs).bind
          fun expanded hexpanded => ?_
        refine (Ensures.liftState (frame.rebuilt_spec _)).bind fun frame' hframe' => ?_
        obtain ⟨hkind', hselectors', hrules'⟩ := hframe'
        have hdone' : ∀ r ∈ done ++ expanded,
            r ∈ b.rules ∧ r.shape.isMixin = false ∨ r.FinishedRule := by
          intro r hr
          rcases List.mem_append.mp hr with hr | hr
          · exact hdone r hr
          · exact .inr (hexpanded r hr).2
        have hconforms := hframe.spliced hrules (fun r hr => (hexpanded r hr).1) hkind' hrules'
        exact ih hconforms (hkind'.trans hkind) (hselectors'.trans hselectors) hrules' hdone' hrest'
      | _ => cases hmixin
    · rw [Bool.not_eq_true] at hmixin
      rw [Block.expandCallsFrom_of_not_mixin hmixin]
      refine ih hframe hkind hselectors (by rw [hrules]; simp) ?_ hrest'
      intro r hr
      rcases List.mem_append.mp hr with hr | hr
      · exact hdone r hr
      · rw [List.mem_singleton.mp hr]
        exact .inl ⟨hrest rule List.mem_cons_self, hmixin⟩

/-- Expanding all calls of a block, with none of its rules behind it. -/
lemma Block.expandCalls_respects {b : Block} (hb : b.Conforms g) :
    Ensures (b.expandCalls ev env scope) (b.Expanded g) g.Tolerates :=
  Block.expandCallsFrom_respects hev hscope hb rfl rfl rfl (by simp) fun _ hr => hr

/-- An evaluated rule keeps to the grammar and to its role: a definition stays a definition, with its
surroundings captured, and anything else becomes what a node evaluates to. -/
lemma Block.evaluateRule_respects {r : Node} (hr : r.Conforms g .rule)
    (hmixin : r.shape.isMixin = false) :
    Ensures (Block.evaluateRule ev env scope r)
      (fun v => v.Conforms g .rule ∧ v.FinishedRule ∧ (r.role ≠ .other → v.role = r.role))
      g.Tolerates := by
  have hnode : Ensures (ev.node env scope r)
      (fun v => v.Conforms g .rule ∧ v.FinishedRule ∧ (r.role ≠ .other → v.role = r.role))
      g.Tolerates :=
    (hev.node hscope hr fun _ => hmixin).mono fun v hv =>
      ⟨hv.conforms, hv.finished.finishedRule, hv.role⟩
  cases r with
  | block child =>
    rw [Block.evaluateRule]
    split
    · next hdef =>
      refine (Ensures.liftState (Block.capture_conforms hr.of_block hscope)).bind fun c hc => ?_
      obtain ⟨hc, hcdef, hcroot⟩ := hc
      refine .pure ⟨.block ?_ hc, fun hplain => ?_, fun _ => ?_⟩
      · rw [hcroot]
        exact hr.allowed
      · rw [Node.isDefinition, hcdef, hdef] at hplain
        cases hplain
      · rw [Node.role, Node.role, hcdef]
    · exact hnode
  | _ => exact hnode

/-- The rules for blocks respect the grammar. -/
lemma Block.evaluateWith_respects {b : Block} (hb : b.Conforms g) :
    Ensures (b.evaluateWith ev env scope)
      (fun c => c.Conforms g ∧ c.Finished ∧ c.kind = b.kind) g.Tolerates := by
  unfold Block.evaluateWith
  refine (Block.expandCalls_respects hev hscope hb).bind fun frame hframe => ?_
  refine (Ensures.mapM (R := fun v => v.Conforms g .rule ∧ v.FinishedRule) fun r hr => ?_).bind
    fun rules hrules => ?_
  · exact (Block.evaluateRule_respects hev (hscope.cons hframe.conforms)
      (hframe.conforms.of_mem_rules hr) (hframe.isMixin_eq_false hr)).mono fun v hv => ⟨hv.1, hv.2.1⟩
  refine .liftState ((frame.rebuilt_spec rules).mono fun c hc => ?_)
  obtain ⟨hkind, -, hcrules⟩ := hc
  refine ⟨hframe.conforms.of_rules hkind ?_, ?_, hkind.trans hframe.kind⟩
  · intro r hr
    rw [hcrules] at hr
    exact (hrules r hr).1
  · intro r hr
    rw [hcrules] at hr
    exact (hrules r hr).2

end blocks

/-- **Evaluation keeps every grammar.** With any fuel, results keep to the grammar and are finished,
and every cause is one that the grammar tolerates. -/
theorem evaluator_respects (g : Grammar) (fuel : Nat) : (evaluator fuel).Respects g := by
  induction fuel with
  | zero =>
    exact ⟨fun _ _ _ => .throw g.tolerates_outOfFuel, fun _ _ => .throw g.tolerates_outOfFuel⟩
  | succ fuel ih =>
    exact ⟨fun hscope hn hmixin => Node.evaluateWith_respects ih hscope hn hmixin,
      fun hscope hb => Block.evaluateWith_respects ih hscope hb⟩

end Stylesheet
