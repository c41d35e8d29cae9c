import Stylesheet.Proofs.Lockstep
import Stylesheet.Proofs.Rendering

/-!
# Two renderings in step

The walk through the rules of evaluation goes on through those of rendering, over any `Lockstep`.

* Replacing imports takes alike rules to alike rules (`Imports.expandRules_inStep`). An import is never
  exchanged with a neighbour, and none is added.
* **Alike blocks are rendered to one text** (`Block.render_inStep`): of two rules that are exchanged one
  prints nothing, and what is added prints nothing either.
-/

namespace Stylesheet

variable {α β : Type} {L : Lockstep} {w : L.World}

/-! ## Imports

No import changes places and none is added, so both runs replace the same imports in the same order. What
comes in for an import is not exchanged with anything outside it. -/

/-- A rule with a role of its own is no import. -/
lemma Node.pendingImport?_of_role_ne_other {n : Node} (h : n.role ≠ .other) :
    n.pendingImport? = none := by
  cases n with
  | atImport path => exact absurd rfl h
  | _ => rfl

/-- Rules that are exchanged are no imports. -/
lemma Node.Exchanges.pendingImport?_eq_none {r s : Node} (h : r.Exchanges s) :
    r.pendingImport? = none ∧ s.pendingImport? = none :=
  ⟨pendingImport?_of_role_ne_other h.role_ne_other.1, pendingImport?_of_role_ne_other h.role_ne_other.2⟩

/-- Alike rules have the same imports to replace. -/
lemma RulesAlike.pendingImports {V : Variation} {rules rules' : List Node}
    (h : RulesAlike V rules rules') :
    rules'.filterMap Node.pendingImport? = rules.filterMap Node.pendingImport? :=
  h.filterMap_eq (fun _ _ hrs => .inl hrs.independent.pendingImport?_eq_none.1)
    (fun _ _ hr => hr.pendingImport?) fun _ hr => hr.pendingImport?

/-- Whether a function gives something for an element of a list. -/
lemma any_isSome_eq (f : α → Option β) (l : List α) :
    (l.any fun a => (f a).isSome) = !(l.filterMap f).isEmpty := by
  induction l with
  | nil => rfl
  | cons a l ih => cases h : f a <;> simp [h, ih]

namespace Imports

/-- What takes the place of one rule. -/
def replaceWith (env : Env) (serve : String → Block → Except EvalError (List Node)) (rule : Node) :
    Except EvalError (List Node) :=
  match rule.pendingImport? with
  | none => .ok [rule]
  | some path =>
    match env.importTree? path with
    | none => .error (.importNotFound path)
    | some tree => serve path tree

/-- A rule that is no import stays. -/
lemma replaceWith_of_eq_none {rule : Node} (h : rule.pendingImport? = none) (env : Env)
    (serve : String → Block → Except EvalError (List Node)) :
    replaceWith env serve rule = .ok [rule] := by
  rw [replaceWith, h]

/-- Rules are replaced one after the other. -/
lemma expandWith_cons (env : Env) (serve : String → Block → Except EvalError (List Node)) (rule : Node)
    (rules : List Node) :
    expandWith env serve (rule :: rules) = do
      let part ← replaceWith env serve rule
      let others ← expandWith env serve rules
      return part ++ others := by
  unfold expandWith
  rw [List.mapM_cons]
  simp only [bind_assoc, pure_bind, List.flatten_cons]
  rfl

variable {env env' : Env} {serve serve' : String → Block → Except EvalError (List Node)}

/-- An exchange takes place between imports, so it is still there once they are replaced. -/
lemma expandWith_swapped {V : Variation} {rules rules' : List Node}
    (h : Swapped V.Exchanges rules rules') :
    Concurs (Shuffled V.Exchanges) (expandWith env serve rules) (expandWith env serve rules') := by
  obtain @⟨a, b, before, after, hab⟩ := h
  obtain ⟨ha, hb⟩ := hab.independent.pendingImport?_eq_none
  induction before with
  | nil =>
    simp only [List.nil_append, expandWith_cons, replaceWith_of_eq_none ha, replaceWith_of_eq_none hb]
    cases expandWith env serve after with
    | error e => exact .error e
    | ok others => exact .ok (.of_swapped (.intro [] others hab))
  | cons rule before ih =>
    rw [List.cons_append, List.cons_append, expandWith_cons, expandWith_cons]
    refine (concurs_rfl _).bind ?_
    rintro part _ rfl
    exact ih.bind fun others others' hothers => .ok ((Shuffled.refl part).append hothers)

/-- The same for exchanges one after another. -/
lemma expandWith_shuffled {V : Variation} {rules rules' : List Node}
    (h : Shuffled V.Exchanges rules rules') :
    Concurs (Shuffled V.Exchanges) (expandWith env serve rules) (expandWith env serve rules') := by
  induction h with
  | refl =>
    cases expandWith env serve rules with
    | error e => exact .error e
    | ok r => exact .ok (.refl r)
  | tail _ hswap ih => exact ih.trans .trans (expandWith_swapped hswap)

variable (henv : L.Environments w env env')

include henv

/-- One rule, and one that is alike to it. -/
lemma replaceWith_inStep {rule rule' : Node} (hrule : rule.Alike (L.variation w) rule')
    (hserve : ∀ path tree tree', tree.Alike (L.variation w) tree' →
      L.InStep w (fun w' => RulesAlike (L.variation w')) (liftM (serve path tree))
        (liftM (serve' path tree'))) :
    L.InStep w (fun w' => RulesAlike (L.variation w')) (liftM (replaceWith env serve rule))
      (liftM (replaceWith env' serve' rule')) := by
  unfold replaceWith
  rw [hrule.pendingImport?]
  cases rule.pendingImport? with
  | none => exact .pure (.of_forall₂ (.cons hrule .nil))
  | some path =>
    have htrees := henv.imports path
    dsimp only
    generalize env.importTree? path = tree, env'.importTree? path = tree' at htrees ⊢
    cases htrees with
    | some htree => exact hserve path _ _ htree
    | none => exact .throw _

/-- Rules one after the other, the second list with more in it. What was added is no import, so it is put
back as it is. -/
lemma expandWith_padded {rules rules' : List Node}
    (h : Padded (Node.Alike (L.variation w)) (L.variation w).Added rules rules')
    (hserve : ∀ w', w ≤ w' → ∀ path tree tree', tree.Alike (L.variation w') tree' →
      L.InStep w' (fun w' => RulesAlike (L.variation w')) (liftM (serve path tree))
        (liftM (serve' path tree'))) :
    L.InStep w (fun w' => RulesAlike (L.variation w')) (liftM (expandWith env serve rules))
      (liftM (expandWith env' serve' rules')) := by
  have key : ∀ w', w ≤ w' → L.InStep w' (fun w' => RulesAlike (L.variation w'))
      (liftM (expandWith env serve rules)) (liftM (expandWith env' serve' rules')) := by
    induction h with
    | nil => exact fun w' _ => .pure (.of_forall₂ .nil)
    | cons hrule _ ih =>
      intro w' hw'
      rw [expandWith_cons, expandWith_cons, liftExcept_bind, liftExcept_bind]
      refine (replaceWith_inStep (henv.mono hw') (hrule.mono (L.variation_mono hw'))
        (hserve w' hw')).bind fun w₁ hw₁ part part' hpart => ?_
      rw [liftExcept_bind, liftExcept_bind]
      refine (ih w₁ (le_trans hw' hw₁)).bind fun w₂ hw₂ others others' hothers => .pure ?_
      exact (RulesAlike.mono hpart (L.variation_mono hw₂)).append hothers
    | extra hrule _ ih =>
      intro w' hw'
      rw [expandWith_cons env', replaceWith_of_eq_none hrule.pendingImport?, liftExcept_bind,
        ← bind_pure (liftM (expandWith env serve _) : EvalM (List Node))]
      show L.InStep w' _ _ (liftM (expandWith env' serve' _ >>= _))
      rw [liftExcept_bind]
      refine (ih w' hw').bind fun w₁ hw₁ others others' hothers => .pure ?_
      have hadded : RulesAlike (L.variation w₁) [] [_] :=
        .of_padded (.extra (hrule.mono (L.variation_mono (le_trans hw' hw₁))) .nil)
      exact hadded.append hothers
  exact key w (le_refl w)

/-- Alike rules are replaced by alike rules. -/
lemma expandWith_inStep {rules rules' : List Node} (h : RulesAlike (L.variation w) rules rules')
    (hserve : ∀ w', w ≤ w' → ∀ path tree tree', tree.Alike (L.variation w') tree' →
      L.InStep w' (fun w' => RulesAlike (L.variation w')) (liftM (serve path tree))
        (liftM (serve' path tree'))) :
    L.InStep w (fun w' => RulesAlike (L.variation w')) (liftM (expandWith env serve rules))
      (liftM (expandWith env' serve' rules')) := by
  obtain ⟨mid, hshuffle, hpadded⟩ := h
  refine (Comparison.InStep.of_concurs (expandWith_shuffled hshuffle)
    (expandWith_padded henv hpadded hserve)).imp ?_
  rintro w' hw' r r' ⟨k, hrk, k', hkk', hk'⟩
  exact ⟨k', (hrk.imp fun _ _ hrs => (L.variation_mono hw').exchanges hrs).trans hkk', hk'⟩

/-- **Imports are replaced alike.** If the second run has more levels to go, the first one is excused for
running out of them. -/
theorem expandRules_inStep {levels levels' : Nat}
    (hlevels : levels' = levels ∧ env'.options.maxDepth = env.options.maxDepth ∨
      levels ≤ levels' ∧ ∀ context, L.excuses (.recursionLimit env.options.maxDepth context))
    {rules rules' : List Node} (h : RulesAlike (L.variation w) rules rules') :
    L.InStep w (fun w' => RulesAlike (L.variation w')) (liftM (expandRules env levels rules))
      (liftM (expandRules env' levels' rules')) := by
  induction levels generalizing w levels' rules rules' with
  | zero =>
    rcases hlevels with ⟨rfl, hlimit⟩ | ⟨-, hexcused⟩
    · refine expandWith_inStep henv h fun w' _ path _ _ _ => ?_
      rw [hlimit]
      exact .throw _
    · cases levels' with
      | zero => exact expandWith_inStep henv h fun w' _ path _ _ _ => .excused (hexcused path)
      | succ => exact expandWith_inStep henv h fun w' _ path _ _ _ => .excused (hexcused path)
  | succ levels ih =>
    obtain ⟨levels', rfl⟩ : ∃ k, levels' = k + 1 := ⟨levels' - 1, by omega⟩
    refine expandWith_inStep henv h fun w' hw' path tree tree' htree => ?_
    refine ih (henv.mono hw') ?_ htree.rules
    rcases hlevels with ⟨hsame, hlimit⟩ | ⟨hle, hexcused⟩
    · exact .inl ⟨by omega, hlimit⟩
    · exact .inr ⟨by omega, hexcused⟩

end Imports

/-- The blocks that are rendered are alike. -/
lemma Block.source_inStep {env env' : Env} (henv : L.Environments w env env') {b b' : Block}
    (h : b.Alike (L.variation w) b') :
    L.InStep w (fun w' => Block.Alike (L.variation w')) (b.source env) (b'.source env') := by
  unfold Block.source
  rw [h.isRoot]
  split
  · unfold Block.expandImports
    rw [any_isSome_eq, any_isSome_eq, RulesAlike.pendingImports h.rules, henv.depth]
    split
    · refine (Imports.expandRules_inStep henv ?_ h.rules).bind fun w' hw' rules rules' hrules => ?_
      · rcases henv.limit with hsame | ⟨hle, hexcused⟩
        · exact .inl ⟨by rw [hsame], hsame⟩
        · exact .inr ⟨Nat.sub_le_sub_right hle _, hexcused⟩
      · exact Block.rebuilt_inStep (h.mono (L.variation_mono hw')) hrules
    · exact .pure h
  · exact .pure h

/-! ## Silent rules

What is moved or added must not show in the text. A variable and a definition print nothing, and of two
rules that change places one is a variable or a definition. -/

/-- A rule that prints nothing. -/
def Node.isSilent : Node → Bool
  | .declaration d => d.isVariable
  | .block b => b.isDefinition
  | _ => false

/-- What is moved past its neighbours is silent. -/
lemma Node.isSilent_of_movesPast {r : Node} {past : Role} (h : r.role.MovesPast past) :
    r.isSilent = true := by
  cases r with
  | declaration d =>
    have hvar : d.name.toList.head? = some '@' := by cases h <;> assumption
    exact beq_iff_eq.mpr hvar
  | block b =>
    rw [Node.role] at h
    split at h
    · next hdef => exact hdef
    · cases h
  | _ => cases h

/-- Of two rules that are exchanged one is silent. -/
lemma Node.Exchanges.isSilent {r s : Node} (h : r.Exchanges s) :
    r.isSilent = true ∨ s.isSilent = true := by
  rcases h with h | h
  · exact .inl (Node.isSilent_of_movesPast h)
  · exact .inr (Node.isSilent_of_movesPast h)

/-- Silent rules print nothing. -/
lemma Block.renderRule_silent {r : Node} (h : r.isSilent = true) (ev : Evaluator)
    (inner : Block → EvalM String) (env : Env) (scope : Scope) (isRoot : Bool) :
    Block.renderRule ev inner env scope isRoot r = pure .nothing := by
  cases r with
  | declaration d => exact Block.renderRule_variable h ev inner env scope isRoot
  | block b => exact Block.renderRule_definition h ev inner env scope isRoot
  | _ => cases h

/-- What is added is silent. -/
lemma Variation.Added.isSilent {V : Variation} {r : Node} (h : V.Added r) : r.isSilent = true := by
  obtain ⟨d, rfl, hdef, -⟩ := h
  exact hdef

/-- Pieces that are exchanged with pieces that print nothing, among others that print nothing, make the
same text. -/
lemma Piece.assemble_of_shuffledBy {pieces pieces' : List Piece}
    (h : ShuffledBy (fun p q => p = .nothing ∨ q = .nothing) Eq (· = .nothing) pieces pieces')
    (isRoot : Bool) (paths : List Path) :
    Piece.assemble isRoot paths pieces = Piece.assemble isRoot paths pieces' := by
  have hpick : ∀ f : Piece → Option String, f .nothing = none →
      pieces'.filterMap f = pieces.filterMap f := by
    intro f hf
    refine h.filterMap_eq (fun p q hpq => ?_) (fun p q hpq => by rw [hpq]) fun p hp => by rw [hp, hf]
    rcases hpq with rfl | rfl
    · exact .inl hf
    · exact .inr hf
  rw [Piece.assemble, Piece.assemble, hpick Piece.line? rfl, hpick Piece.nested? rfl]

/-! ## Rendering -/

section rendering

variable {ev ev' : Evaluator} {env env' : Env} {scope scope' : Scope} (hev : ev.InStep L ev')
  (henv : L.Environments w env env') (hscope : Scope.Conforms L.grammar scope)
  (halike : Scope.Alike (L.variation w) scope scope')

include hev henv hscope halike

/-- A rule that is evaluated and printed. -/
lemma Block.renderLine_inStep {r r' : Node} (hr : r.Conforms L.grammar .rule)
    (hmixin : r.shape.isMixin = false) (hrule : r.Alike (L.variation w) r') :
    L.InStep w (fun _ => Eq) (Block.renderLine ev env scope r)
      (Block.renderLine ev' env' scope' r') := by
  unfold Block.renderLine
  refine (hev.node henv hscope halike hr hrule).bind_ensures
    (hev.respects.node hscope hr fun _ => hmixin) ?_
  intro w₁ _ v v' hv hevaluated
  rw [hv.toCss (L.hidden w₁) hevaluated.conforms]
  refine (Comparison.InStep.liftExcept (R := fun _ => Eq) (concurs_rfl _)).bind ?_
  rintro w₂ - text _ rfl
  exact .pure rfl

/-- One rule of a block prints the same piece in both runs: nothing, a comment, a line that is evaluated
in step, or a nested block. -/
lemma Block.renderRule_inStep {inner inner' : Block → EvalM String} {r r' : Node}
    (hr : r.Conforms L.grammar .rule) (hmixin : r.shape.isMixin = false)
    (hrule : r.Alike (L.variation w) r')
    (hinner : ∀ c c', r = .block c → c.Alike (L.variation w) c' →
      L.InStep w (fun _ => Eq) (inner c) (inner' c')) (isRoot : Bool) :
    L.InStep w (fun _ => Eq) (Block.renderRule ev inner env scope isRoot r)
      (Block.renderRule ev' inner' env' scope' isRoot r') := by
  have hline := Block.renderLine_inStep hev henv hscope halike hr hmixin hrule
  cases hrule with
  | @block child child' hchild =>
    cases hdef : child.isDefinition with
    | true =>
      rw [Block.renderRule_definition hdef,
        Block.renderRule_definition (hchild.isDefinition.trans hdef)]
      exact .pure rfl
    | false =>
      rw [Block.renderRule_nested hdef, Block.renderRule_nested (hchild.isDefinition.trans hdef),
        map_eq_pure_bind, map_eq_pure_bind]
      refine (hinner child child' rfl hchild).bind ?_
      rintro w₁ - text _ rfl
      exact .pure rfl
  | @declaration name value value' important _ =>
    cases hvar : Declaration.isVariable ⟨name, value, important⟩ with
    | true =>
      rw [Block.renderRule_variable hvar, Block.renderRule_variable (d := ⟨name, value', important⟩) hvar]
      exact .pure rfl
    | false =>
      rw [Block.renderRule_property hvar, Block.renderRule_property (d := ⟨name, value', important⟩) hvar]
      exact hline
  | @leaf r hleaf =>
    cases r with
    | comment text =>
      cases isRoot with
      | true => exact .pure rfl
      | false => exact hline
    | block | declaration => cases hleaf
    | _ => exact hline
  | _ => exact hline

/-- The rules for rendering. Imports are replaced and calls expanded in step; then every rule gives a
piece, and of the pieces that are exchanged or added all that shows in the text keeps its order. -/
lemma Block.renderWith_inStep {inner inner' : Env → Scope → List Path → Block → EvalM String}
    (hserves : env.Serves L.grammar)
    (hinner : ∀ {w : L.World} {scope scope' : Scope} (context : List Path) {b b' : Block},
      L.Environments w env env' → Scope.Conforms L.grammar scope →
      Scope.Alike (L.variation w) scope scope' → b.Conforms L.grammar → b.Alike (L.variation w) b' →
      L.InStep w (fun _ => Eq) (inner env scope context b) (inner' env' scope' context b'))
    (context : List Path) {b b' : Block} (hb : b.Conforms L.grammar)
    (hblocks : b.Alike (L.variation w) b') :
    L.InStep w (fun _ => Eq) (Block.renderWith ev inner env scope context b)
      (Block.renderWith ev' inner' env' scope' context b') := by
  have hpaths : b'.innerPaths context = b.innerPaths context := by
    rw [Block.innerPaths, hblocks.isRoot, hblocks.selectors, Block.innerPaths]
  rw [Block.renderWith_eq, Block.renderWith_eq, hpaths]
  refine (Block.source_inStep henv hblocks).bind_ensures (Block.source_respects hserves hb) ?_
  intro w₁ hw₁ source source' hsources hsource
  refine (Block.expandCalls_inStep hev (henv.mono hw₁) hscope (halike.mono (L.variation_mono hw₁))
    hsource hsources).bind_ensures (Block.expandCalls_respects hev.respects hscope hsource) ?_
  intro w₂ hw₂ frame frame' hframes hframe
  have hw := le_trans hw₁ hw₂
  have hinside : Scope.Conforms L.grammar (frame :: scope) := hscope.cons hframe.conforms
  have hinsideAlike : Scope.Alike (L.variation w₂) (frame :: scope) (frame' :: scope') :=
    .cons hframes (halike.mono (L.variation_mono hw))
  rw [hframes.isRoot]
  refine Comparison.InStep.bind
    (R := fun _ => ShuffledBy (fun p q => p = Piece.nothing ∨ q = .nothing) Eq (· = .nothing)) ?_
    fun _ _ pieces pieces' h => .pure (Piece.assemble_of_shuffledBy h _ _)
  -- of two rules that change places one prints nothing, and so does a rule that was added
  refine L.mapRules (S := fun _ => Eq) (P := fun r piece => r.isSilent = true → piece = .nothing)
    (fun _ _ _ _ _ h => h) hframes.rules ?_ ?_ ?_ ?_
  · intro w₃ hw₃ r hr r' hrr'
    have hrule := hframe.conforms.of_mem_rules hr
    have henv₃ := henv.mono (le_trans hw hw₃)
    have hinsideAlike₃ := hinsideAlike.mono (L.variation_mono hw₃)
    refine Block.renderRule_inStep hev henv₃ hinside hinsideAlike₃ hrule (hframe.isMixin_eq_false hr)
      hrr' ?_ frame.isRoot
    rintro c c' rfl hc
    exact hinner _ henv₃ hinside hinsideAlike₃ hrule.of_block hc
  · intro r hr
    cases hsilent : r.isSilent with
    | true =>
      rw [Block.renderRule_silent hsilent]
      exact .pure fun _ => rfl
    | false => exact ⟨fun _ h => absurd h (by simp), fun _ => trivial⟩
  · intro r s hrs p q hp hq
    exact hrs.independent.isSilent.imp hp hq
  · intro r' hr' m
    rw [Block.renderRule_silent hr'.isSilent]
    exact ⟨.nothing, m, rfl, rfl, .refl⟩

end rendering

/-- **Alike blocks are rendered in step, to one text.** -/
theorem Block.render_inStep (L : Lockstep) {fuel fuel' : Nat} (hfuel : L.Suffices fuel fuel')
    {w : L.World} {env env' : Env} (henv : L.Environments w env env') (hserves : env.Serves L.grammar)
    {scope scope' : Scope} (hscope : Scope.Conforms L.grammar scope)
    (halike : Scope.Alike (L.variation w) scope scope') (context : List Path) {b b' : Block}
    (hb : b.Conforms L.grammar) (hblocks : b.Alike (L.variation w) b') :
    L.InStep w (fun _ => Eq) (Block.render fuel env scope context b)
      (Block.render fuel' env' scope' context b') := by
  induction fuel generalizing fuel' w scope scope' context b b' with
  | zero =>
    refine hfuel.zero ?_
    rintro rfl
    rfl
  | succ fuel ih =>
    obtain ⟨k, rfl, hk⟩ := hfuel.succ
    exact Block.renderWith_inStep (evaluator_inStep L hk) henv hscope halike hserves
      (fun context _ _ henv hscope halike hb hblocks => ih hk henv hscope halike context hb hblocks)
      context hb hblocks

end Stylesheet
