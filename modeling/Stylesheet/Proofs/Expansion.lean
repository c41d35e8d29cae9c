import Stylesheet.Proofs.Termination

/-!
# Expanding the calls of a block, one after another

Before a block is evaluated, each mixin call among its rules is replaced by the rules that it stands
for. Which rules these are depends on the block at hand, and the block at hand changes with each
replacement. This file says what comes of it.

* **The rules.** `Node.replaceCalls rules expansions` is the list of rules with its first calls
  replaced, one by each expansion, and everything else in place. The rules of an expansion are not
  looked at again: `Node.calls_replaceCalls` says which calls are left.
* **The loop is a left fold** over the calls that were there from the start
  (`Block.expandCalls_eq_foldlM`). What the loop has behind it is known by its expansions alone.
* **Without fuel.** `Block.Unfolds` says that the first calls have answered, each in the block that
  the answers before it leave. The loop goes on as far as there are answers: it ends with a block if
  every call answers, and for the cause of the first call that does not
  (`Block.unfolds_all_or_fails`).
-/

namespace Stylesheet

/-! ## Calls among rules

Lists of rules, in which nothing is evaluated: which calls stand among them, and what they become when
some of the calls are replaced. -/

/-- The mixin call that a rule is. -/
def Node.mixinCall? : Node → Option MixinCall
  | .mixin c => some c
  | _ => none

/-- The mixin calls among rules, in document order. -/
def Node.calls (rules : List Node) : List MixinCall :=
  rules.filterMap Node.mixinCall?

/-- The rules with the first calls among them replaced, one by each expansion; later calls stay. -/
def Node.replaceCalls : List Node → List (List Node) → List Node
  | rules, [] => rules
  | [], _ => []
  | .mixin _ :: rest, expansion :: expansions => expansion ++ replaceCalls rest expansions
  | rule :: rest, expansions => rule :: replaceCalls rest expansions

/-- The first of two calls is replaced by two rules, and the second one stays. -/
example (first second : MixinCall) :
    Node.replaceCalls [.text "a", .mixin first, .text "b", .mixin second] [[.text "x", .text "y"]] =
      [.text "a", .text "x", .text "y", .text "b", .mixin second] := rfl

section rules

variable {rule : Node}

/-- There is no call in a rule exactly if it is no mixin call. -/
lemma Node.mixinCall?_eq_none_iff : rule.mixinCall? = none ↔ rule.shape.isMixin = false := by
  cases rule <;> simp [Node.mixinCall?, Node.shape, Shape.isMixin]

/-- A rule is a mixin call or it is not. -/
lemma Node.eq_mixin_or_not (rule : Node) :
    (∃ call, rule = .mixin call) ∨ rule.shape.isMixin = false := by
  cases rule <;> simp [Node.shape, Shape.isMixin]

/-- There are no calls among no rules. -/
@[simp] lemma Node.calls_nil : Node.calls [] = [] := rfl

/-- The calls among two lists of rules are those of the first and then those of the second. -/
@[simp] lemma Node.calls_append (front back : List Node) :
    Node.calls (front ++ back) = Node.calls front ++ Node.calls back :=
  List.filterMap_append

/-- A call comes before those that follow it. -/
@[simp] lemma Node.calls_mixin_cons (call : MixinCall) (rest : List Node) :
    Node.calls (.mixin call :: rest) = call :: Node.calls rest := rfl

/-- Any other rule brings no call. -/
lemma Node.calls_cons_of_not_mixin (h : rule.shape.isMixin = false) (rest : List Node) :
    Node.calls (rule :: rest) = Node.calls rest :=
  List.filterMap_cons_none (Node.mixinCall?_eq_none_iff.mpr h)

/-- No calls are among the rules exactly if none of them is one. -/
lemma Node.calls_eq_nil_iff {rules : List Node} :
    Node.calls rules = [] ↔ ∀ r ∈ rules, r.shape.isMixin = false := by
  simp only [Node.calls, List.filterMap_eq_nil_iff, Node.mixinCall?_eq_none_iff]

/-- With nothing to put in their places, the calls stay. -/
@[simp] lemma Node.replaceCalls_nil_right (rules : List Node) : Node.replaceCalls rules [] = rules := by
  cases rules <;> rfl

/-- Where there are no rules, nothing is put in. -/
@[simp] lemma Node.replaceCalls_nil_left (expansions : List (List Node)) :
    Node.replaceCalls [] expansions = [] := by
  cases expansions <;> rfl

/-- A rule that is no call stays where it is. -/
lemma Node.replaceCalls_cons_of_not_mixin (h : rule.shape.isMixin = false) (rest : List Node)
    (expansions : List (List Node)) :
    Node.replaceCalls (rule :: rest) expansions = rule :: Node.replaceCalls rest expansions := by
  cases expansions with
  | nil => simp
  | cons expansion expansions =>
    cases rule with
    | mixin call => cases h
    | _ => simp [Node.replaceCalls]

/-- Rules are taken from the left: where the calls in front have an expansion each, the rules behind
them are left with the expansions behind those. -/
lemma Node.replaceCalls_append {front : List Node} {expansions : List (List Node)}
    (h : expansions.length = (Node.calls front).length) (back : List Node)
    (later : List (List Node)) :
    Node.replaceCalls (front ++ back) (expansions ++ later) =
      Node.replaceCalls front expansions ++ Node.replaceCalls back later := by
  induction front generalizing expansions with
  | nil =>
    rw [List.eq_nil_of_length_eq_zero h]
    rfl
  | cons rule front ih =>
    obtain ⟨call, rfl⟩ | hmixin := rule.eq_mixin_or_not
    · obtain ⟨expansion, expansions, rfl⟩ := List.exists_cons_of_length_eq_add_one h
      simp only [Node.calls_mixin_cons, List.length_cons, Nat.add_right_cancel_iff] at h
      simp only [List.cons_append, Node.replaceCalls, ih h, List.append_assoc]
    · rw [Node.calls_cons_of_not_mixin hmixin] at h
      rw [List.cons_append, Node.replaceCalls_cons_of_not_mixin hmixin, ih h,
        Node.replaceCalls_cons_of_not_mixin hmixin, List.cons_append]

/-- One expansion more takes the place of the first call that is left. -/
lemma Node.replaceCalls_snoc {front : List Node} {expansions : List (List Node)}
    (h : expansions.length = (Node.calls front).length) (call : MixinCall) (rest : List Node)
    (expansion : List Node) :
    Node.replaceCalls (front ++ .mixin call :: rest) (expansions ++ [expansion]) =
      Node.replaceCalls front expansions ++ expansion ++ rest := by
  rw [Node.replaceCalls_append h, Node.replaceCalls, Node.replaceCalls_nil_right, List.append_assoc]

/-- If no expansion has a call in it, each one takes a call away, the first ones first. -/
lemma Node.calls_replaceCalls (rules : List Node) {expansions : List (List Node)}
    (h : ∀ expansion ∈ expansions, Node.calls expansion = []) :
    Node.calls (Node.replaceCalls rules expansions) = (Node.calls rules).drop expansions.length := by
  induction rules generalizing expansions with
  | nil => simp
  | cons rule rest ih =>
    obtain ⟨call, rfl⟩ | hmixin := rule.eq_mixin_or_not
    · cases expansions with
      | nil => simp
      | cons expansion expansions =>
        rw [List.forall_mem_cons] at h
        rw [Node.replaceCalls, Node.calls_append, h.1, ih h.2]
        rfl
    · rw [Node.replaceCalls_cons_of_not_mixin hmixin, Node.calls_cons_of_not_mixin hmixin, ih h,
        Node.calls_cons_of_not_mixin hmixin]

end rules

/-! ## The loop is a left fold

The loop carries the rules behind it and the rules ahead of it. Neither has to be remembered, as both are
known from the block at the start and the expansions so far. -/

namespace Block

variable {ev : Evaluator} {env : Env} {scope : Scope} {b frame : Block}

/-- One round of the loop: the next call is evaluated in the block at hand, and the next block at hand
has the expansion in its place. -/
def expandNext (ev : Evaluator) (env : Env) (scope : Scope) (b : Block) :
    Block × List (List Node) → MixinCall → EvalM (Block × List (List Node))
  | (frame, expansions), call => do
    let expansion ← call.evaluateWith ev env (frame :: scope)
    let frame ← b.rebuilt (Node.replaceCalls b.rules (expansions ++ [expansion]))
    return (frame, expansions ++ [expansion])

/-- Rebuilding a block keeps its selectors and its kind, and asks nothing else of it. -/
lemma rebuilt_congr (hselectors : frame.selectors = b.selectors) (hkind : frame.kind = b.kind)
    (rules : List Node) : frame.rebuilt rules = b.rebuilt rules := by
  unfold rebuilt
  rw [hselectors, hkind]

/-- What follows a rebuilt block has to be known only for blocks like it. -/
lemma rebuilt_bind_congr {β : Type} {rules : List Node} {k l : Block → EvalM β}
    (h : ∀ frame, frame.selectors = b.selectors → frame.kind = b.kind → k frame = l frame) :
    (liftM (b.rebuilt rules) >>= k) = liftM (b.rebuilt rules) >>= l := by
  funext m
  exact congrFun (h ((b.rebuilt rules).run m).1 rfl rfl) _

/-- The loop in the middle: the rules in `front` are behind it, and what is ahead of it are the calls
among `rest`. Rules that are no calls are only passed over. -/
lemma expandCallsFrom_eq_foldlM {front rest : List Node} {expansions : List (List Node)}
    (hrules : b.rules = front ++ rest) (hselectors : frame.selectors = b.selectors)
    (hkind : frame.kind = b.kind) (hlength : expansions.length = (Node.calls front).length) :
    expandCallsFrom ev env scope frame (Node.replaceCalls front expansions) rest =
      Prod.fst <$> (Node.calls rest).foldlM (b.expandNext ev env scope) (frame, expansions) := by
  induction rest generalizing front frame expansions with
  | nil =>
    rw [expandCallsFrom, Node.calls_nil, List.foldlM_nil, map_pure]
  | cons rule rest ih =>
    have hrules' : b.rules = (front ++ [rule]) ++ rest := by rw [hrules]; simp
    obtain ⟨call, rfl⟩ | hmixin := rule.eq_mixin_or_not
    · rw [expandCallsFrom, Node.calls_mixin_cons, List.foldlM_cons, map_bind, expandNext]
      simp only [bind_assoc, pure_bind]
      refine bind_congr fun expansion => ?_
      have hdone : Node.replaceCalls (front ++ [.mixin call]) (expansions ++ [expansion]) =
          Node.replaceCalls front expansions ++ expansion := by
        rw [Node.replaceCalls_snoc hlength, List.append_nil]
      rw [hrules, Node.replaceCalls_snoc hlength, rebuilt_congr hselectors hkind]
      refine rebuilt_bind_congr fun frame' hselectors' hkind' => ?_
      rw [← hdone]
      exact ih hrules' hselectors' hkind' (by simp [hlength])
    · have hdone : Node.replaceCalls (front ++ [rule]) expansions =
          Node.replaceCalls front expansions ++ [rule] := by
        have happend := Node.replaceCalls_append hlength [rule] []
        rwa [List.append_nil, Node.replaceCalls_nil_right] at happend
      rw [expandCallsFrom_of_not_mixin hmixin, Node.calls_cons_of_not_mixin hmixin, ← hdone]
      refine ih hrules' hselectors hkind ?_
      rw [hlength, Node.calls_append, Node.calls_cons_of_not_mixin hmixin, Node.calls_nil,
        List.append_nil]

/-- The mixin calls among the rules of a block. -/
def calls (b : Block) : List MixinCall :=
  Node.calls b.rules

/-- **The loop is a left fold** over the calls of the block as it was at the start. -/
theorem expandCalls_eq_foldlM (ev : Evaluator) (env : Env) (scope : Scope) (b : Block) :
    b.expandCalls ev env scope =
      Prod.fst <$> b.calls.foldlM (b.expandNext ev env scope) (b, []) := by
  have hlength : ([] : List (List Node)).length = (Node.calls []).length := rfl
  exact expandCallsFrom_eq_foldlM (List.nil_append b.rules).symm rfl rfl hlength

/-! ## What the calls answer

Each call is evaluated with the block at hand as its innermost frame, so its answer may depend on the
answers before it. `Unfolds` grows at its right end, by one answer at a time. -/

/-- From the memory `m`, the first calls of the block answer with the expansions, one after another.
Each is evaluated in the block that has the expansions before it in place and the later calls still
there; `frame` is that block after the last of the expansions, and `m'` the memory. -/
inductive Unfolds (env : Env) (scope : Scope) (b : Block) (m : Memory) :
    (expansions : List (List Node)) → (frame : Block) → (m' : Memory) → Prop
  | start : Unfolds env scope b m [] b m
  | next {expansions : List (List Node)} {frame : Block} {m₁ m₂ : Memory} {call : MixinCall}
      {expansion : List Node} {r : Block × Memory} :
      Unfolds env scope b m expansions frame m₁ →
      b.calls[expansions.length]? = some call →
      Yields (fun fuel => call.evaluate fuel env (frame :: scope)) m₁ (.ok expansion, m₂) →
      (b.rebuilt (Node.replaceCalls b.rules (expansions ++ [expansion]))).run m₂ = r →
      Unfolds env scope b m (expansions ++ [expansion]) r.1 r.2

namespace Unfolds

variable {m m' : Memory} {expansions : List (List Node)}

/-- The block at hand is the block with the expansions in place. -/
lemma frame_spec (h : b.Unfolds env scope m expansions frame m') :
    frame.rules = Node.replaceCalls b.rules expansions ∧ frame.selectors = b.selectors ∧
      frame.kind = b.kind := by
  cases h with
  | start => exact ⟨(Node.replaceCalls_nil_right b.rules).symm, rfl, rfl⟩
  | next _ _ _ hr =>
    subst hr
    exact ⟨rfl, rfl, rfl⟩

/-- What a call stands for is evaluated, so there is no call in it. -/
lemma calls_expansion_eq_nil (h : b.Unfolds env scope m expansions frame m') :
    ∀ expansion ∈ expansions, Node.calls expansion = [] := by
  induction h with
  | start => simp
  | @next expansions frame m₁ m₂ call expansion r _ _ hexpansion _ ih =>
    have hfinished : ∀ r ∈ expansion, r.Conforms .any .rule ∧ r.FinishedRule :=
      hexpansion.value fun fuel => MixinCall.evaluateWith_respects (evaluator_respects .any fuel)
        (Scope.conforms_any (frame :: scope)) fun a _ => conforms_any.1 a.value .value
    intro x hx
    rcases List.mem_append.mp hx with hx | hx
    · exact ih x hx
    · rw [List.mem_singleton.mp hx]
      exact Node.calls_eq_nil_iff.mpr fun r hr => (hfinished r hr).2.isMixin_eq_false

/-- The calls that have not answered yet are the calls of the block at hand. -/
lemma calls_frame (h : b.Unfolds env scope m expansions frame m') :
    frame.calls = b.calls.drop expansions.length := by
  rw [calls, h.frame_spec.1, Node.calls_replaceCalls b.rules h.calls_expansion_eq_nil, calls]

/-- Once the first calls have answered, the loop ends as it does for the calls that are left. -/
lemma yields_of_rest {r : Except EvalError (Block × List (List Node)) × Memory}
    (h : b.Unfolds env scope m expansions frame m')
    (hrest : Yields (fun fuel => (b.calls.drop expansions.length).foldlM
      (b.expandNext (evaluator fuel) env scope) (frame, expansions)) m' r) :
    Yields (fun fuel => b.calls.foldlM (b.expandNext (evaluator fuel) env scope) (b, [])) m r := by
  induction h with
  | start => exact hrest
  | @next expansions frame m₁ m₂ call expansion r _ hcall hexpansion hr ih =>
    refine ih ?_
    rw [List.drop_eq_getElem?_toList_append, hcall]
    simp only [Option.toList_some, List.singleton_append, List.foldlM_cons, expandNext, bind_assoc,
      pure_bind]
    subst hr
    rw [List.length_append] at hrest
    exact hexpansion.bind ((Yields.const (liftM (b.rebuilt _)) m₂).bind hrest)

/-- If every call has answered, the loop ends with the block at hand. -/
lemma yields_ok (h : b.Unfolds env scope m expansions frame m')
    (hall : expansions.length = b.calls.length) :
    Yields (fun fuel => b.expandCalls (evaluator fuel) env scope) m (.ok frame, m') := by
  simp only [expandCalls_eq_foldlM, map_eq_pure_bind]
  refine Yields.bind (a := (frame, expansions)) (h.yields_of_rest ?_) (.const (pure frame) m')
  simp only [hall, List.drop_length, List.foldlM_nil]
  exact .const (pure (frame, expansions)) m'

/-- If the next call ends for a cause, so does the loop. -/
lemma yields_error {m'' : Memory} {call : MixinCall} {e : EvalError}
    (h : b.Unfolds env scope m expansions frame m') (hcall : b.calls[expansions.length]? = some call)
    (he : Yields (fun fuel => call.evaluate fuel env (frame :: scope)) m' (.error e, m'')) :
    Yields (fun fuel => b.expandCalls (evaluator fuel) env scope) m (.error e, m'') := by
  simp only [expandCalls_eq_foldlM, map_eq_pure_bind]
  refine Yields.bind_error (h.yields_of_rest ?_)
  rw [List.drop_eq_getElem?_toList_append, hcall]
  simp only [Option.toList_some, List.singleton_append, List.foldlM_cons, expandNext, bind_assoc]
  exact he.bind_error

end Unfolds

/-- From the memory `m`, some of the first calls of the block answer, and the call after them ends for
the cause `e`. -/
def FailsFor (env : Env) (scope : Scope) (b : Block) (m : Memory) (e : EvalError) (m' : Memory) :
    Prop :=
  ∃ expansions frame m₁ call, b.Unfolds env scope m expansions frame m₁ ∧
    b.calls[expansions.length]? = some call ∧
    Yields (fun fuel => call.evaluate fuel env (frame :: scope)) m₁ (.error e, m')

/-- Every call that is reached ends, so answers can be added until all calls have answered or one
fails. -/
lemma Unfolds.all_or_fails {m m' : Memory} {expansions : List (List Node)}
    (h : b.Unfolds env scope m expansions frame m') (hle : expansions.length ≤ b.calls.length) :
    (∃ expansions frame m', b.Unfolds env scope m expansions frame m' ∧
      expansions.length = b.calls.length) ∨
    ∃ e m', b.FailsFor env scope m e m' := by
  -- on the number of calls that have not answered
  induction hleft : b.calls.length - expansions.length generalizing expansions frame m' with
  | zero => exact .inl ⟨expansions, frame, m', h, by omega⟩
  | succ left ih =>
    have hlt : expansions.length < b.calls.length := by omega
    have hcall := List.getElem?_eq_getElem hlt
    obtain ⟨⟨e | expansion, m₂⟩, hyields, -⟩ := MixinCall.evaluate_ends_of_deeper
      (fun _ => env.deeper.settles) (frame :: scope) (b.calls[expansions.length]) m'
    · exact .inr ⟨e, m₂, expansions, frame, m', _, h, hcall, hyields⟩
    · have hnext := h.next hcall hyields rfl
      have hlength : (expansions ++ [expansion]).length = expansions.length + 1 := by simp
      exact ih hnext (by omega) (by omega)

/-- Every call answers, or there is a first one that does not. -/
theorem unfolds_all_or_fails (env : Env) (scope : Scope) (b : Block) (m : Memory) :
    (∃ expansions frame m', b.Unfolds env scope m expansions frame m' ∧
      expansions.length = b.calls.length) ∨
    ∃ e m', b.FailsFor env scope m e m' :=
  Unfolds.start.all_or_fails (Nat.zero_le _)

/-- A block fails for the cause for which its first failing call does. -/
lemma FailsFor.yields {m m' : Memory} {e : EvalError} (h : b.FailsFor env scope m e m') :
    Yields (fun fuel => b.expandCalls (evaluator fuel) env scope) m (.error e, m') := by
  obtain ⟨expansions, frame, m₁, call, h, hcall, he⟩ := h
  exact h.yields_error hcall he

/-- The loop ends with a block exactly if every call answers. -/
lemma expandCalls_yields_ok_iff {m m' : Memory} :
    Yields (fun fuel => b.expandCalls (evaluator fuel) env scope) m (.ok frame, m') ↔
      ∃ expansions, b.Unfolds env scope m expansions frame m' ∧
        expansions.length = b.calls.length := by
  constructor
  · intro hok
    obtain ⟨expansions, _, _, h, hall⟩ | ⟨e, _, h⟩ := unfolds_all_or_fails env scope b m
    · cases hok.unique (h.yields_ok hall)
      exact ⟨expansions, h, hall⟩
    · cases hok.unique h.yields
  · rintro ⟨expansions, h, hall⟩
    exact h.yields_ok hall

/-- The loop ends for the cause of the first call that does not answer. -/
lemma expandCalls_yields_error_iff {m m' : Memory} {e : EvalError} :
    Yields (fun fuel => b.expandCalls (evaluator fuel) env scope) m (.error e, m') ↔
      b.FailsFor env scope m e m' := by
  refine ⟨fun herror => ?_, FailsFor.yields⟩
  obtain ⟨_, _, _, h, hall⟩ | ⟨e, _, h⟩ := unfolds_all_or_fails env scope b m
  · cases herror.unique (h.yields_ok hall)
  · cases herror.unique h.yields
    exact h

/-- **Expanding the calls of a block.** The calls that stand among the rules are taken one by one from
the left, each once, and each is evaluated in the block in which the calls before it are replaced by
what they stand for and it and those after it still stand. The expansion always ends: with a block if
every call answers, and otherwise for the cause of the first one that does not. In the block that it
ends with, the other rules are where they were and the rules that the calls stand for are in the place
of the calls; none of these rules is a call; the selectors are the same, and the block is of the same
kind, with the same parameters and the same surroundings if it is a definition. -/
theorem expandCalls_unfolds (env : Env) (scope : Scope) (b : Block) (m : Memory) :
    (∀ ev, b.expandCalls ev env scope =
      Prod.fst <$> b.calls.foldlM (b.expandNext ev env scope) (b, [])) ∧
    Ends (fun fuel => b.expandCalls (evaluator fuel) env scope) m ∧
    (∀ frame m', Yields (fun fuel => b.expandCalls (evaluator fuel) env scope) m (.ok frame, m') ↔
      ∃ expansions, b.Unfolds env scope m expansions frame m' ∧
        expansions.length = b.calls.length) ∧
    (∀ e m', Yields (fun fuel => b.expandCalls (evaluator fuel) env scope) m (.error e, m') ↔
      b.FailsFor env scope m e m') ∧
    (∀ expansions frame m', b.Unfolds env scope m expansions frame m' →
      frame.rules = Node.replaceCalls b.rules expansions ∧
      frame.calls = b.calls.drop expansions.length ∧
      frame.selectors = b.selectors ∧ frame.kind = b.kind) ∧
    ∀ frame m', Yields (fun fuel => b.expandCalls (evaluator fuel) env scope) m (.ok frame, m') →
      frame.calls = [] := by
  refine ⟨fun ev => expandCalls_eq_foldlM ev env scope b,
    expandCallsFrom_ends (fun _ => env.deeper.settles) scope b [] b.rules m,
    fun _ _ => expandCalls_yields_ok_iff, fun _ _ => expandCalls_yields_error_iff, ?_, ?_⟩
  · intro expansions frame m' h
    obtain ⟨hrules, hselectors, hkind⟩ := h.frame_spec
    exact ⟨hrules, h.calls_frame, hselectors, hkind⟩
  · intro frame m' hok
    obtain ⟨expansions, h, hall⟩ := expandCalls_yields_ok_iff.mp hok
    rw [h.calls_frame, hall, List.drop_length]

end Block

end Stylesheet
