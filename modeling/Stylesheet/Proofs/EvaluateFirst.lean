import Stylesheet.Proofs.Agreement
import Stylesheet.Proofs.ImportRounds
import Stylesheet.Proofs.Reevaluation

/-!
# Rendering agrees with evaluating first

There are two ways through a block. Rendering evaluates each line where it is printed, and leaves the
declarations of variables alone; evaluation builds a new block, in which nothing is left to evaluate.
If evaluation succeeds then rendering does, and the new block prints as the same text, wherever it is
printed (`Block.render_evaluate`).

This is about *self-contained* trees: no imports to replace, no rules in the place of values, and only
plain selectors in calls and accessors. The two ways do not meet the same memories, so the proof is
about blocks that are alike but for their stamps, in scopes that are (`Lockstep.selfContained`).

* `Gives K run a`: from every memory in `K`, `run` yields `a`.
* `Node.exists_piece`: one piece for a rule, and for what the rule evaluates to.
* `Block.exists_css`: one text for a block, and for what the block evaluates to.
-/

namespace Stylesheet

variable {α β γ : Type}

/-! ## The same value from many memories

Rendering, evaluation and the printing of the result each meet memories of their own. `Gives` is `Yields`
from all memories of a kind at once, and says that they are of this kind afterwards. -/

/-- From every memory in `K`, `run` yields `a` and leaves a memory in `K`. -/
def Gives (K : Memory → Prop) (run : Nat → EvalM α) (a : α) : Prop :=
  ∀ m, K m → ∃ m', Yields run m (.ok a, m') ∧ K m'

namespace Gives

variable {K : Memory → Prop} {run : Nat → EvalM α} {a : α}

/-- A value at hand is given with any fuel. -/
lemma pure (a : α) : Gives K (fun _ => pure a) a :=
  fun m hm => ⟨m, .const _ m, hm⟩

/-- One step after another. -/
lemma bind {k : Nat → α → EvalM β} {b : β} (h : Gives K run a)
    (hk : Gives K (fun fuel => k fuel a) b) : Gives K (fun fuel => run fuel >>= k fuel) b := by
  intro m hm
  obtain ⟨m₁, ha, hm₁⟩ := h m hm
  obtain ⟨m₂, hb, hm₂⟩ := hk m₁ hm₁
  exact ⟨m₂, ha.bind hb, hm₂⟩

/-- What is given with one unit of fuel to spare is given. -/
lemma of_succ (h : Gives K (fun fuel => run (fuel + 1)) a) : Gives K run a := by
  intro m hm
  obtain ⟨m', ha, hm'⟩ := h m hm
  exact ⟨m', ha.of_succ, hm'⟩

/-- A list is taken element by element, and so is any list that is related to it. -/
lemma mapM {R : α → α → Prop} {run : Nat → α → EvalM β} {as as' : List α} {bs : List β}
    (h : List.Forall₂ (fun a b => ∀ a', R a a' → Gives K (fun fuel => run fuel a') b) as bs)
    (has : List.Forall₂ R as as') : Gives K (fun fuel => as'.mapM (run fuel)) bs := by
  induction h generalizing as' with
  | nil =>
    cases has
    simp only [List.mapM_nil]
    exact pure []
  | cons hab _ ih =>
    cases has with
    | cons haa has =>
      simp only [List.mapM_cons]
      exact (hab _ haa).bind ((ih has).bind (pure _))

end Gives

/-- Of a list that ends with values, each element does; what is found for each value is found for all
of them. -/
lemma exists_forall₂_of_mapM {P : α → γ → Prop} {Q : β → γ → Prop} {f : α → EvalM β} {l : List α}
    (hf : ∀ a ∈ l, ∀ m m' b, m.Plain → outcome (f a) m = (.ok b, m') →
      m'.Plain ∧ ∃ c, P a c ∧ Q b c)
    {m m' : Memory} {bs : List β} (hm : m.Plain) (h : outcome (l.mapM f) m = (.ok bs, m')) :
    ∃ cs, List.Forall₂ P l cs ∧ List.Forall₂ Q bs cs := by
  induction l generalizing m bs with
  | nil =>
    rw [List.mapM_nil] at h
    cases h
    exact ⟨[], .nil, .nil⟩
  | cons a l ih =>
    rw [List.mapM_cons] at h
    obtain ⟨b, m₁, hb, h⟩ := outcome_bind_ok.mp h
    obtain ⟨bs, m₂, hbs, h⟩ := outcome_bind_ok.mp h
    cases h
    obtain ⟨hm₁, c, hac, hbc⟩ := hf a List.mem_cons_self m m₁ b hm hb
    obtain ⟨cs, hl, hbs⟩ := ih (fun a' ha' => hf a' (List.mem_cons_of_mem a ha')) hm₁ hbs
    exact ⟨c :: cs, .cons hac hl, .cons hbc hbs⟩

/-! ## Values that yield exactly themselves -/

/-- What is legible yields itself and nothing less: there is no stamp and no closure in it. -/
lemma Node.Legible.gives_self {K : Memory → Prop} (env : Env) (scope : Scope) {n : Node}
    (hn : n.Legible) : Gives K (fun fuel => n.evaluate fuel env scope) n := by
  induction hn with
  | @intro n notPending notBlock _ ih =>
    have hall : Gives K (fun fuel => n.values.mapM ((evaluator fuel).node env scope)) n.values :=
      .mapM (R := Eq) (List.forall₂_same.mpr fun k hk k' hkk' => hkk' ▸ ih k hk)
        (List.forall₂_refl _)
    refine .of_succ ?_
    cases n with
    | text | quoted | number | color | comment | atImport => exact .pure _
    | expression items | list items => exact hall.bind (.pure _)
    | declaration d =>
      obtain ⟨name, value, important⟩ := d
      exact (ih value List.mem_cons_self).bind (.pure _)
    | block b => cases notBlock
    | var | operation | call | accessor | mixin => cases notPending

/-! ## Self-contained trees

A rule that evaluates to a value is printed as a line, so the value has to be one that prints as a line
too. Comments, declarations and blocks do not. Imports are left out because evaluation leaves them where
they are, and rendering replaces them. -/

/-- Shapes of rules that print as a line wherever they stand. -/
def Shape.isLine : Shape → Bool
  | .declaration => false
  | .comment => false
  | .block _ => false
  | _ => true

/-- A rule that becomes a line is rendered as one, in a root as well as elsewhere. -/
lemma Block.renderRule_of_isLine {r : Node} (h : r.shape.isLine = true) (ev : Evaluator)
    (inner : Block → EvalM String) (env : Env) (scope : Scope) (isRoot : Bool) :
    Block.renderRule ev inner env scope isRoot r = Block.renderLine ev env scope r := by
  cases r with
  | declaration | comment | block => cases h
  | _ => rfl

/-- No imports that are to be replaced; no declarations, comments, imports, blocks and mixin calls as
values; only plain selectors in calls and accessors. -/
def Grammar.selfContained : Grammar where
  allows p
    | .declaration => p = .rule
    | .comment => p = .rule
    | .atImport path => p = .rule ∧ Node.isCssPath path = true
    | .block _ => p = .rule
    | .mixin s => p = .rule ∧ s.Plain
    | .accessor s => s.Plain
    | _ => True
  text _ := trivial
  number _ := trivial
  color _ := trivial
  declaration := rfl
  rule_of_value := by
    intro s hs
    cases s with
    | declaration | comment | block => cases hs
    | atImport | mixin => cases hs.1
    | _ => exact hs

namespace Grammar

/-- Neither blocks nor calls are values. -/
lemma strict_selfContained : selfContained.Strict := by
  intro s hs
  cases s with
  | block => cases hs
  | mixin => cases hs.1
  | _ => exact ⟨rfl, rfl⟩

/-- Only plain selectors are looked up. -/
lemma plain_of_selfContained {s : Selector} (h : selfContained.LooksUp s) : s.Plain := by
  obtain ⟨p, h | h⟩ := h
  · exact h
  · exact h.2

/-- Values print as lines. -/
lemma isLine_of_selfContained {s : Shape} (hs : selfContained.allows .value s) : s.isLine = true := by
  cases s with
  | declaration | comment | block => cases hs
  | _ => rfl

end Grammar

/-- A self-contained block has nothing to import. -/
lemma Block.Conforms.importing_eq_none {b : Block} (hb : b.Conforms .selfContained) :
    b.importing? = none := by
  unfold Block.importing?
  split
  · rw [List.findSome?_eq_none_iff]
    intro r hr
    have hallowed := (hb.of_mem_rules hr).allowed
    cases r with
    | atImport path =>
      have hcss : Node.isCssPath path = true := hallowed.2
      rw [Node.pendingImport?, if_pos hcss]
    | _ => rfl
  · rfl

/-! ## Trees with other stamps

The frames that rendering builds are not those that evaluation has built, and they have other stamps. They
differ in nothing else, and only plain selectors are looked up, so the runs are in step. -/

/-- Two runs in self-contained trees that differ in their stamps only, from plain memories. -/
abbrev Lockstep.selfContained : Lockstep :=
  .toldApart Selector.toldApart_plain (fun _ _ hs ht => hs.tail ht) Grammar.plain_of_selfContained False

/-- The evaluator, in self-contained trees. -/
lemma evaluator_inStep_selfContained (fuel : Nat) :
    (evaluator fuel).InStep .selfContained (evaluator fuel) :=
  evaluator_inStep _ (.inl rfl)

/-- What a computation gives that is in step with another one. -/
lemma Comparison.InStep.gives {x : EvalM α} {run : Nat → EvalM α} {fuel : Nat} {a : α} {m m' : Memory}
    (h : Lockstep.selfContained.InStep () (fun _ => Eq) x (run fuel))
    (hrun : ∀ fuel fuel', fuel ≤ fuel' → Approximates (run fuel) (run fuel')) (hm : m.Plain)
    (hx : outcome x m = (.ok a, m')) : Gives Memory.Plain run a := by
  intro m₁ hm₁
  obtain ⟨_, b, m₂, -, hb, rfl, -, hm₂⟩ := h.of_ok ⟨hm, hm₁⟩ hx
  exact ⟨m₂, .of_outcome_eq hrun hb nofun, hm₂⟩

/-- The nodes are alike but for stamps. -/
abbrev Node.Twin : Node → Node → Prop :=
  Node.Alike (.loose False)

/-- The blocks are alike but for stamps. -/
abbrev Block.Twin : Block → Block → Prop :=
  Block.Alike (.loose False)

/-- The scopes are alike but for stamps. -/
abbrev Scope.Twin : Scope → Scope → Prop :=
  Scope.Alike (.loose False)

/-- The rules of twins are twins one by one. -/
lemma Block.Twin.forall₂_rules {b b' : Block} (h : b.Twin b') :
    List.Forall₂ Node.Twin b.rules b'.rules :=
  h.rules.forall₂ (fun _ _ hrs => hrs.1) fun _ hr => hr.elim fun _ hd => hd.2.2

/-! ## Rules

What is needed of a rule before and after evaluation. Before, it prints as some piece, also where the
blocks around it have other stamps. After, its value prints as the same piece wherever it is put. -/

/-- The text that rendering gives for the block, and for its twins in twins of the scope. -/
def Block.RendersAs (env : Env) (scope : Scope) (context : List Path) (b : Block) (css : String) :
    Prop :=
  ∀ scope' b', Scope.Twin scope scope' → b.Twin b' →
    Gives Memory.Plain (fun fuel => Block.render fuel env scope' context b') css

/-- The text that rendering gives for the block wherever it stands. -/
def Block.RendersAnywhereAs (context : List Path) (b : Block) (css : String) : Prop :=
  ∀ env scope, Gives (fun _ => True) (fun fuel => Block.render fuel env scope context b) css

/-- The piece that a rule prints as, and its twins in twins of the scope. -/
def Node.PrintsAs (env : Env) (scope : Scope) (paths : List Path) (isRoot : Bool) (r : Node)
    (piece : Piece) : Prop :=
  ∀ scope' r', Scope.Twin scope scope' → r.Twin r' →
    Gives Memory.Plain (fun fuel => Block.renderRule (evaluator fuel)
      (Block.render fuel env scope' paths) env scope' isRoot r') piece

/-- The piece that a rule prints as wherever it stands. -/
def Node.PrintsAnywhereAs (paths : List Path) (isRoot : Bool) (r : Node) (piece : Piece) : Prop :=
  ∀ env scope, Gives (fun _ => True) (fun fuel => Block.renderRule (evaluator fuel)
    (Block.render fuel env scope paths) env scope isRoot r) piece

section rules

variable {fuel : Nat} {env : Env} {scope : Scope} {r v : Node} {m m' : Memory}

/-- A line and what it evaluates to print as one text. Before evaluation the run on any twin is in step
with the one that is given, which has printed that text; after it nothing is left to evaluate, so the
value prints by itself. -/
lemma Node.exists_line (hscope : Scope.Conforms .selfContained scope)
    (hr : r.Conforms .selfContained .rule) (hblock : r.shape.isBlock = false)
    (hmixin : r.shape.isMixin = false) (hm : m.Plain)
    (h : outcome (r.evaluate fuel env scope) m = (.ok v, m')) :
    ∃ text, (∀ scope' r', Scope.Twin scope scope' → r.Twin r' →
        Gives Memory.Plain (fun fuel => Block.renderLine (evaluator fuel) env scope' r')
          (.line text)) ∧
      ∀ env' scope', Gives (fun _ => True)
        (fun fuel => Block.renderLine (evaluator fuel) env' scope' v) (.line text) := by
  have hstrict := Grammar.strict_selfContained
  have hv : Evaluated .selfContained .rule r v :=
    ((evaluator_respects .selfContained fuel).node hscope hr fun _ => hmixin).value h
  have hvblock : v.shape.isBlock = false := by
    rcases hv.origin with hvalue | hshape
    · exact hvalue.isBlock_eq_false hstrict
    · rw [hshape, hblock]
  obtain ⟨text, htext⟩ := hv.finished.exists_toCss hstrict hv.conforms hvblock
  refine ⟨text, fun scope' r' htwin hrtwin => ?_, fun env' scope' => ?_⟩
  · have hline : outcome (Block.renderLine (evaluator fuel) env scope r) m = (.ok (.line text), m') := by
      refine (outcome_bind_of_ok h).trans ?_
      rw [htext]
      rfl
    have hmixin' : r'.shape.isMixin = false := by rw [hrtwin.shape, hmixin]
    exact (Block.renderLine_inStep (evaluator_inStep_selfContained fuel)
      (Lockstep.environments_toldApart env) hscope htwin hr hmixin hrtwin).gives
      (fun _ _ hle => Block.renderLine_approximates hle env scope' hmixin') hm hline
  · have hprint : Gives (fun _ => True) (fun _ => do return Piece.line (← v.toCss)) (.line text) := by
      rw [htext]
      exact .pure _
    exact ((hv.finished.legible hstrict hv.conforms hvblock).gives_self env' scope').bind hprint

/-- A rule that prints as a line, and evaluates to one that does. -/
lemma Node.exists_piece_of_line (paths : List Path) (isRoot : Bool)
    (hscope : Scope.Conforms .selfContained scope) (hr : r.Conforms .selfContained .rule)
    (hblock : r.shape.isBlock = false) (hmixin : r.shape.isMixin = false) (hm : m.Plain)
    (h : outcome (r.evaluate fuel env scope) m = (.ok v, m'))
    (hline : ∀ r', r.Twin r' → ∀ ev inner env scope, Block.renderRule ev inner env scope isRoot r' =
      Block.renderLine ev env scope r')
    (hvline : ∀ ev inner env scope, Block.renderRule ev inner env scope isRoot v =
      Block.renderLine ev env scope v) :
    ∃ piece, r.PrintsAs env scope paths isRoot piece ∧ v.PrintsAnywhereAs paths isRoot piece := by
  obtain ⟨text, hbefore, hafter⟩ := Node.exists_line hscope hr hblock hmixin hm h
  refine ⟨.line text, fun scope' r' htwin hrtwin => ?_, fun env' scope' => ?_⟩
  · simp only [hline r' hrtwin]
    exact hbefore scope' r' htwin hrtwin
  · simp only [hvline]
    exact hafter env' scope'

/-- A block among rules evaluates to a block, with the same fuel if that suffices. -/
lemma Node.evaluate_block_ok {child : Block}
    (h : outcome ((Node.block child).evaluate fuel env scope) m = (.ok v, m')) :
    ∃ c, outcome (child.evaluate fuel env scope) m = (.ok c, m') ∧ v = .block c := by
  cases fuel with
  | zero => cases h
  | succ fuel =>
    obtain ⟨c, m₁, hc, hv⟩ := outcome_bind_ok.mp h
    cases hv
    have hsame : outcome (child.evaluate (fuel + 1) env scope) m = _ :=
      (Block.evaluate_approximates (Nat.le_succ fuel) env scope child).outcome_eq
        (by rw [Block.evaluate, hc]; nofun)
    exact ⟨c, hsame.trans hc, rfl⟩

variable (paths : List Path) (isRoot : Bool)
  (hblocks : ∀ child c m m', child.Conforms .selfContained → m.Plain →
    outcome (Block.evaluate fuel env scope child) m = (.ok c, m') →
      ∃ css, child.RendersAs env scope paths css ∧ c.RendersAnywhereAs paths css)
  (hscope : Scope.Conforms .selfContained scope)

include hblocks hscope

/-- A block among rules and what becomes of it print as one piece: definitions print nothing, and any
other block is rendered. -/
lemma Node.exists_piece_of_block {child : Block} (hchild : child.Conforms .selfContained)
    (hm : m.Plain)
    (h : outcome (Block.evaluateRule (evaluator fuel) env scope (.block child)) m = (.ok v, m')) :
    ∃ piece, (Node.block child).PrintsAs env scope paths isRoot piece ∧
      v.PrintsAnywhereAs paths isRoot piece := by
  by_cases hdef : child.isDefinition = true
  · rw [Block.evaluateRule, if_pos hdef] at h
    obtain ⟨c, m₁, hc, hv⟩ := outcome_bind_ok.mp h
    cases hv
    have hcdef : c.isDefinition = true := by
      cases hc
      exact (Block.capture_conforms hchild hscope m).2.1.trans hdef
    refine ⟨.nothing, fun scope' r' _ hrtwin => ?_, fun env' scope' => ?_⟩
    · cases hrtwin with
      | leaf hleaf => cases hleaf
      | block hb =>
        simp only [Block.renderRule_definition (hb.isDefinition.trans hdef)]
        exact .pure _
    · simp only [Block.renderRule_definition hcdef]
      exact .pure _
  · rw [Bool.not_eq_true] at hdef
    rw [Block.evaluateRule_of_not_definition (r := .block child) hdef] at h
    obtain ⟨c, hc, rfl⟩ := Node.evaluate_block_ok h
    obtain ⟨css, hbefore, hafter⟩ := hblocks child c m m' hchild hm hc
    -- evaluation keeps the kind, so the value is no definition either
    have hkind : c.kind = child.kind :=
      (((evaluator_respects .selfContained fuel).block hscope hchild).value hc).2.2
    have hcdef : c.isDefinition = false := by rw [Block.isDefinition, hkind]; exact hdef
    refine ⟨.nested css, fun scope' r' htwin hrtwin => ?_, fun env' scope' => ?_⟩
    · cases hrtwin with
      | leaf hleaf => cases hleaf
      | block hb =>
        simp only [Block.renderRule_nested (hb.isDefinition.trans hdef), map_eq_pure_bind]
        exact (hbefore scope' _ htwin hb).bind (.pure _)
    · simp only [Block.renderRule_nested hcdef, map_eq_pure_bind]
      exact (hafter env' scope').bind (.pure _)

/-- A rule and what it evaluates to print as one piece, if nested blocks do. Comments print as they are,
variables print nothing, nested blocks are known by assumption; all else prints as a line before and after
evaluation. -/
lemma Node.exists_piece (hr : r.Conforms .selfContained .rule) (hmixin : r.shape.isMixin = false)
    (hm : m.Plain)
    (h : outcome (Block.evaluateRule (evaluator fuel) env scope r) m = (.ok v, m')) :
    ∃ piece, r.PrintsAs env scope paths isRoot piece ∧ v.PrintsAnywhereAs paths isRoot piece := by
  cases r with
  | block child =>
    exact Node.exists_piece_of_block paths isRoot hblocks hscope hr.of_block hm h
  | comment text =>
    have hv : v = .comment text := by
      cases fuel with
      | zero => cases h
      | succ fuel => cases h; rfl
    subst hv
    cases isRoot with
    | true =>
      refine ⟨.nested (text ++ "\n"), fun scope' r' _ hrtwin => ?_, fun _ _ => .pure _⟩
      cases hrtwin
      exact .pure _
    | false =>
      refine Node.exists_piece_of_line paths false hscope hr rfl rfl hm h ?_ fun _ _ _ _ => rfl
      intro r' hrtwin
      cases hrtwin
      exact fun _ _ _ _ => rfl
  | declaration d =>
    obtain ⟨w, rfl⟩ : ∃ w, v = .declaration { d with value := w } := by
      cases fuel with
      | zero => cases h
      | succ fuel =>
        obtain ⟨w, m₁, -, hv⟩ := outcome_bind_ok.mp h
        cases hv
        exact ⟨w, rfl⟩
    by_cases hvar : d.isVariable = true
    · refine ⟨.nothing, fun scope' r' _ hrtwin => ?_, fun env' scope' => ?_⟩
      · cases hrtwin with
        | leaf hleaf => cases hleaf
        | @declaration name _ value' important _ =>
          simp only [Block.renderRule_variable (d := ⟨name, value', important⟩) hvar]
          exact .pure _
      · simp only [Block.renderRule_variable (d := { d with value := w }) hvar]
        exact .pure _
    · rw [Bool.not_eq_true] at hvar
      refine Node.exists_piece_of_line paths isRoot hscope hr rfl rfl hm h ?_
        fun ev inner env scope =>
          Block.renderRule_property (d := { d with value := w }) hvar ev inner env scope isRoot
      intro r' hrtwin ev inner env scope
      cases hrtwin with
      | leaf hleaf => cases hleaf
      | @declaration name _ value' important _ =>
        exact Block.renderRule_property (d := ⟨name, value', important⟩) hvar ev inner env scope isRoot
  | _ =>
    -- what is left prints as a line, and so does every value
    have hv : Evaluated .selfContained .rule _ v :=
      ((evaluator_respects .selfContained fuel).node hscope hr fun _ => hmixin).value h
    have hvline : v.shape.isLine = true := by
      rcases hv.origin with hvalue | hshape
      · exact Grammar.isLine_of_selfContained hvalue.allowed
      · rw [hshape]
        rfl
    refine Node.exists_piece_of_line paths isRoot hscope hr rfl hmixin hm h ?_
      fun ev inner env scope => Block.renderRule_of_isLine hvline ev inner env scope isRoot
    intro r' hrtwin ev inner env scope
    exact Block.renderRule_of_isLine (by rw [hrtwin.shape]; rfl) ev inner env scope isRoot

end rules

/-! ## Blocks

Rendering expands the calls of a block and prints its rules one by one. Evaluation expands the same calls
and evaluates the same rules, and its result has no calls left to expand. -/

/-- The paths inside a block depend on its selectors and on whether it is a root. -/
lemma Block.innerPaths_congr {b c : Block} (hroot : c.isRoot = b.isRoot)
    (hselectors : c.selectors = b.selectors) (context : List Path) :
    c.innerPaths context = b.innerPaths context := by
  rw [Block.innerPaths, hroot, hselectors, Block.innerPaths]

/-- Twins import the same. -/
lemma Block.Twin.importing {b b' : Block} (h : b.Twin b') : b'.importing? = b.importing? := by
  rw [Block.importing?, h.isRoot, ← List.head?_filterMap, RulesAlike.pendingImports h.rules,
    List.head?_filterMap, Block.importing?]

section blocks

variable {fuel : Nat} {env : Env} {scope : Scope} {b v : Block} {m m' : Memory}

/-- A block renders as its rules print, once its calls are expanded. On a twin the calls expand in step to
a twin of the frame, and the rules of that frame print the same pieces. -/
lemma Block.rendersAs_of_rules {context : List Path} {frame : Block} {m₁ : Memory}
    {pieces : List Piece} (hscope : Scope.Conforms .selfContained scope)
    (hb : b.Conforms .selfContained) (hm : m.Plain)
    (hframe : outcome (b.expandCalls (evaluator fuel) env scope) m = (.ok frame, m₁))
    (hpieces : List.Forall₂
      (Node.PrintsAs env (frame :: scope) (b.innerPaths context) frame.isRoot) frame.rules pieces) :
    b.RendersAs env scope context
      (Piece.assemble frame.isRoot (b.innerPaths context) pieces) := by
  intro scope' b' htwin hbtwin m₂ hm₂
  obtain ⟨_, frame', m₃, -, hframe', hframeTwin, -, hm₃⟩ :=
    (Block.expandCalls_inStep (evaluator_inStep_selfContained fuel)
      (Lockstep.environments_toldApart env) hscope htwin hb hbtwin).of_ok ⟨hm, hm₂⟩ hframe
  have hexpand : Yields (fun fuel => b'.expandCalls (evaluator fuel) env scope') m₂
      (.ok frame', m₃) :=
    .of_outcome_eq (fun _ _ hle => Block.expandCalls_approximates hle env scope' b') hframe' nofun
  have hrules : List.Forall₂ (fun r piece => ∀ r', r.Twin r' → Gives Memory.Plain
      (fun fuel => Block.renderRule (evaluator fuel)
        (Block.render fuel env (frame' :: scope') (b.innerPaths context)) env (frame' :: scope')
        frame.isRoot r') piece) frame.rules pieces :=
    hpieces.imp fun r piece h r' => h (frame' :: scope') r' (.cons hframeTwin htwin)
  obtain ⟨m₄, hpieces, hm₄⟩ := Gives.mapM hrules (Block.Twin.forall₂_rules hframeTwin) m₃ hm₃
  have hnone : b'.importing? = none := (Block.Twin.importing hbtwin).trans hb.importing_eq_none
  refine ⟨m₄, .of_succ ?_, hm₄⟩
  simp only [Block.render, Block.renderWith_eq, Block.source_of_importing_eq_none env hnone,
    pure_bind]
  refine hexpand.bind ?_
  rw [hframeTwin.isRoot, Block.innerPaths_congr hbtwin.isRoot hbtwin.selectors]
  exact hpieces.bind (.const _ m₄)

/-- A block renders as its rules print, if nothing is left to evaluate in it. -/
lemma Block.Finished.rendersAnywhereAs {context : List Path} {pieces : List Piece} (hv : v.Finished)
    (hconforms : v.Conforms .selfContained)
    (hpieces : List.Forall₂
      (Node.PrintsAnywhereAs (v.innerPaths context) v.isRoot) v.rules pieces) :
    v.RendersAnywhereAs context (Piece.assemble v.isRoot (v.innerPaths context) pieces) := by
  intro env scope
  refine .of_succ ?_
  simp only [Block.render, Block.renderWith_eq,
    Block.source_of_importing_eq_none env hconforms.importing_eq_none, hv.expandCalls, pure_bind]
  have hrules : List.Forall₂ (fun r piece => ∀ r', r = r' → Gives (fun _ => True)
      (fun fuel => Block.renderRule (evaluator fuel)
        (Block.render fuel env (v :: scope) (v.innerPaths context)) env (v :: scope) v.isRoot r')
      piece) v.rules pieces :=
    hpieces.imp fun r piece h r' hr' => hr' ▸ h env (v :: scope)
  exact (Gives.mapM hrules (List.forall₂_refl _)).bind (.pure _)

/-- **One text for a block and for what it evaluates to.** By induction on the fuel of the evaluation: its
calls are expanded to a frame, each rule of the frame evaluates to a rule of the result, and the two print
as one piece. -/
theorem Block.exists_css (hscope : Scope.Conforms .selfContained scope)
    (hb : b.Conforms .selfContained) (hm : m.Plain)
    (h : outcome (b.evaluate fuel env scope) m = (.ok v, m')) (context : List Path) :
    ∃ css, b.RendersAs env scope context css ∧ v.RendersAnywhereAs context css := by
  induction fuel generalizing scope b v m m' context with
  | zero => cases h
  | succ fuel ih =>
    have hev := evaluator_inStep_selfContained fuel
    have henv : Lockstep.selfContained.Environments () env env := Lockstep.environments_toldApart env
    obtain ⟨hconforms, hfinished, hkind⟩ :=
      ((evaluator_respects .selfContained (fuel + 1)).block hscope hb).value h
    -- evaluation in its steps: calls, rules, a new block
    obtain ⟨frame, m₁, hframe, h⟩ := outcome_bind_ok.mp h
    obtain ⟨rules, m₂, hrules, h⟩ := outcome_bind_ok.mp h
    have hspec : v.kind = frame.kind ∧ v.selectors = frame.selectors ∧ v.rules = rules := by
      cases h
      exact frame.rebuilt_spec rules m₂
    have hexpanded : b.Expanded .selfContained frame :=
      (Block.expandCalls_respects hev.respects hscope hb).value hframe
    have hinside : Scope.Conforms .selfContained (frame :: scope) := hscope.cons hexpanded.conforms
    have hm₁ : m₁.Plain := by
      have hkept := (Block.expandCalls_inStep hev henv hscope scope.toldApart_refl hb
        (Lockstep.toldApart_refl.2 b)).holds hm
      rwa [hframe] at hkept
    have hpiece : ∀ r ∈ frame.rules, ∀ m m' w, m.Plain →
        outcome (Block.evaluateRule (evaluator fuel) env (frame :: scope) r) m = (.ok w, m') →
        m'.Plain ∧ ∃ piece,
          r.PrintsAs env (frame :: scope) (b.innerPaths context) frame.isRoot piece ∧
            w.PrintsAnywhereAs (b.innerPaths context) frame.isRoot piece := by
      intro r hr m m' w hm hw
      have hrule := hexpanded.conforms.of_mem_rules hr
      refine ⟨?_, Node.exists_piece (b.innerPaths context) frame.isRoot
        (fun child c m m' hchild hm hc => ih hinside hchild hm hc _) hinside hrule
        (hexpanded.isMixin_eq_false hr) hm hw⟩
      have hkept := (Block.evaluateRule_inStep hev henv hinside (Scope.toldApart_refl _) hrule
        (Lockstep.toldApart_refl.1 r)).holds hm
      rwa [hw] at hkept
    obtain ⟨pieces, hbefore, hafter⟩ := exists_forall₂_of_mapM hpiece hm₁ hrules
    refine ⟨_, Block.rendersAs_of_rules hscope hb hm hframe hbefore, ?_⟩
    have hroot : v.isRoot = frame.isRoot := by rw [Block.isRoot, hspec.1, Block.isRoot]
    have hpaths : v.innerPaths context = b.innerPaths context := by
      refine Block.innerPaths_congr ?_ (hspec.2.1.trans hexpanded.selectors) context
      rw [Block.isRoot, hkind, Block.isRoot]
    rw [← hroot, ← hpaths, ← hspec.2.2] at hafter
    rw [← hroot, ← hpaths]
    exact hfinished.rendersAnywhereAs hconforms hafter

end blocks

/-- **Rendering agrees with evaluating first.** If a self-contained block evaluates in a
self-contained scope, then it renders there, and what it evaluates to renders as the same text in
every environment and every scope. The memories do not matter, as long as only plain selectors have
been looked up, and for what is evaluated they do not matter at all. -/
theorem Block.render_evaluate {fuel : Nat} {env : Env} {scope : Scope} {b v : Block} {m m' : Memory}
    (hscope : Scope.Conforms .selfContained scope) (hb : b.Conforms .selfContained) (hm : m.Plain)
    (h : outcome (b.evaluate fuel env scope) m = (.ok v, m')) (context : List Path) :
    m'.Plain ∧ ∃ css,
      Gives Memory.Plain (fun fuel => Block.render fuel env scope context b) css ∧
      ∀ (env' : Env) (scope' : Scope),
        Gives (fun _ => True) (fun fuel => Block.render fuel env' scope' context v) css := by
  have hm' : m'.Plain := by
    have hkept := ((evaluator_inStep_selfContained fuel).block (Lockstep.environments_toldApart env)
      hscope scope.toldApart_refl hb (Lockstep.toldApart_refl.2 b)).holds hm
    change (outcome (b.evaluate fuel env scope) m).2.Plain at hkept
    rwa [h] at hkept
  obtain ⟨css, hbefore, hafter⟩ := Block.exists_css hscope hb hm h context
  exact ⟨hm', css, hbefore scope b (Scope.alike_refl (fun _ => trivial) scope)
    ((alike_refl fun _ => trivial).2 b), hafter⟩

/-- The sample calls nothing that it does not define itself. -/
lemma Block.callingSample_conforms : Block.callingSample.Conforms .selfContained := by
  have hplain : (⟨[⟨.descendant, ".m"⟩]⟩ : Selector).Plain :=
    ⟨⟨".m", by cbv⟩, by simp⟩
  refine .intro ?_ (by simp [Block.callingSample, Block.defaults, BlockKind.params?])
    (by simp [Block.callingSample, Block.captures, BlockKind.closure?])
  intro r hr
  simp only [Block.callingSample, List.mem_cons, List.not_mem_nil, or_false] at hr
  rcases hr with rfl | rfl | rfl
  · exact .declaration rfl (.text _)
  · refine .block rfl (.intro ?_ ?_ (by simp [Block.captures, BlockKind.closure?]))
    · intro r hr
      rw [List.mem_singleton.mp hr]
      exact .declaration rfl (.var trivial _)
    · intro d hd
      rw [List.mem_singleton.mp hd]
      exact .text _
  · refine .intro ⟨rfl, hplain⟩ ?_ (by simp)
    intro k hk
    rw [List.mem_singleton.mp hk]
    exact .var trivial _

/-- A call of a definition, rendered where it is written and after evaluation. -/
theorem Block.render_evaluate_callingSample :
    let css := ".a \x7b\n  color: red;\n\x7d\n"
    ∃ v m', Scope.Conforms .selfContained [] ∧ Block.callingSample.Conforms .selfContained ∧
      Memory.empty.Plain ∧ outcome (Block.callingSample.evaluate 8 {} []) .empty = (.ok v, m') ∧
      m'.Plain ∧ Gives Memory.Plain (fun fuel => Block.render fuel {} [] [] .callingSample) css ∧
      ∀ (env' : Env) (scope' : Scope),
        Gives (fun _ => True) (fun fuel => Block.render fuel env' scope' [] v) css := by
  intro css
  obtain ⟨v, m', h⟩ : ∃ v m',
      outcome (Block.callingSample.evaluate 8 {} []) .empty = (.ok v, m') := ⟨_, _, rfl⟩
  have hscope : Scope.Conforms .selfContained [] := by simp [Scope.Conforms]
  obtain ⟨hm', text, hbefore, hafter⟩ :=
    Block.render_evaluate hscope Block.callingSample_conforms Memory.plain_empty h []
  -- the text that both give is the one that rendering gives with some fuel
  obtain ⟨m₁, htext, -⟩ := hbefore _ Memory.plain_empty
  have hcss : (outcome (Block.render 8 {} [] [] .callingSample) .empty).1 = .ok css := by
    decide +kernel
  have hyields : Yields (fun fuel => Block.render fuel {} [] [] .callingSample) .empty
      (.ok css, (outcome (Block.render 8 {} [] [] .callingSample) .empty).2) :=
    .of_outcome_eq (fun _ _ hle => Block.render_approximates hle _ _ _ _) (Prod.ext hcss rfl) nofun
  cases htext.unique hyields
  exact ⟨v, m', hscope, Block.callingSample_conforms, Memory.plain_empty, h, hm', hbefore, hafter⟩

end Stylesheet
