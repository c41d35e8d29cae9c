import Stylesheet.Proofs.IdleDefinitions
import Stylesheet.Proofs.Stamping

/-!
# Definitions that nothing names are inert

A mixin definition that no call and no accessor can name may be added to a style sheet anywhere, or taken
out of it. It may hold what it likes: variables that nobody declares, calls of itself, blocks in values.

* Stamping grown trees pairs the stamps of what they have in common (`Block.stamped_grown`).
* **Grown style sheets compile to the same text, or fail for the same cause**
  (`Compiler.compileTree_grown`): trees from outside, and trees with stamps, from every memory in which
  nothing else was looked up before.
-/

namespace Stylesheet

variable {names : String → Prop} {w : Pairing}

/-! ## Stamping

A tree from outside is stamped before it is compiled. The two trees are stamped side by side: blocks that
both have become partners, and what was added draws stamps in the second run only. -/

/-- Stamping an idle definition leaves it idle. -/
lemma Block.Idle.stamped {d : Block} (h : d.Idle names) : Always d.stamped (Block.Idle names) := by
  obtain ⟨stamp, selectors, rules, kind⟩ := d
  intro m
  refine ⟨?_, h.unnamed⟩
  cases kind with
  | definition params => rfl
  | captured params closure => rfl
  | root => cases h.definition
  | plain => cases h.definition

/-- Rules are stamped from left to right. -/
lemma Node.stampedAll_eq_mapM (l : List Node) : Node.stampedAll l = l.mapM Node.stamped := by
  induction l with
  | nil => rw [Node.stampedAll, List.mapM_nil]
  | cons n l ih => rw [Node.stampedAll, List.mapM_cons, ih]

/-- Nodes without blocks have nothing to stamp. -/
lemma Node.stampedAll_eq_pure {l : List Node} (h : ∀ n ∈ l, n.stamped = pure n) :
    Node.stampedAll l = pure l := by
  induction l with
  | nil => rw [Node.stampedAll]
  | cons n l ih =>
    rw [List.forall_mem_cons] at h
    rw [Node.stampedAll, h.1, ih h.2, pure_bind, pure_bind]

/-- The same for arguments. -/
lemma Argument.stampedAll_eq_pure {l : List Argument} (h : ∀ a ∈ l, a.value.stamped = pure a.value) :
    Argument.stampedAll l = pure l := by
  induction l with
  | nil => rw [Argument.stampedAll]
  | cons a l ih =>
    rw [List.forall_mem_cons] at h
    obtain ⟨ha, hl⟩ := h
    cases a with
    | positional value =>
      rw [Argument.value] at ha
      rw [Argument.stampedAll, ha, ih hl, pure_bind, pure_bind]
    | named name value =>
      rw [Argument.value] at ha
      rw [Argument.stampedAll, ha, ih hl, pure_bind, pure_bind]

/-- The same for parameters. -/
lemma Parameter.stampedAll_eq_pure {l : List Parameter}
    (h : ∀ p ∈ l, ∀ d, p.default? = some d → d.stamped = pure d) :
    Parameter.stampedAll l = pure l := by
  induction l with
  | nil => rw [Parameter.stampedAll]
  | cons p l ih =>
    rw [List.forall_mem_cons] at h
    obtain ⟨hp, hl⟩ := h
    cases p with
    | required name => rw [Parameter.stampedAll, ih hl, pure_bind]
    | optional name default =>
      rw [Parameter.stampedAll, hp default rfl, ih hl, pure_bind, pure_bind]

/-- What holds no blocks has nothing to stamp. -/
lemma Node.stamped_eq_pure {n : Node} (hblock : n.shape.isBlock = false)
    (h : ∀ k ∈ n.values, k.stamped = pure k) : n.stamped = pure n := by
  cases n with
  | block b => cases hblock
  | expression items | list items | call name items =>
    have hitems : Node.stampedAll items = pure items := Node.stampedAll_eq_pure h
    rw [Node.stamped, hitems, pure_bind]
  | operation op left right =>
    rw [Node.stamped, h left (by simp [Node.values]), h right (by simp [Node.values]), pure_bind,
      pure_bind]
  | declaration d =>
    obtain ⟨name, value, important⟩ := d
    rw [Node.stamped, h value List.mem_cons_self, pure_bind]
  | mixin call =>
    obtain ⟨selector, args⟩ := call
    have hargs : ∀ a ∈ args, a.value.stamped = pure a.value := fun a ha =>
      h a.value (List.mem_map_of_mem ha)
    rw [Node.stamped, Argument.stampedAll_eq_pure hargs, pure_bind]
  | _ => rfl

/-- A value of a strict grammar has nothing to stamp. -/
lemma Node.Conforms.stamped_eq_pure {g : Grammar} (hg : g.Strict) {n : Node}
    (hn : n.Conforms g .value) : n.stamped = pure n := by
  induction n using Node.induction with
  | step n hvalues _ =>
    exact Node.stamped_eq_pure (hn.isBlock_eq_false hg) fun k hk => hvalues k hk (hn.of_mem_values hk)

/-- Defaults hold no blocks, and closures are left as they are. -/
lemma Block.Conforms.stampedKind_eq_pure {g : Grammar} (hg : g.Strict) {b : Block} (hb : b.Conforms g) :
    b.kind.stamped = pure b.kind := by
  have hparams : ∀ params, b.kind.params? = some params → Parameter.stampedAll params = pure params :=
    fun params hparams => Parameter.stampedAll_eq_pure fun p hp d hd =>
      (hb.of_default hparams hp hd).stamped_eq_pure hg
  obtain ⟨stamp, selectors, rules, kind⟩ := b
  cases kind with
  | root => rfl
  | plain => rfl
  | definition params => rw [BlockKind.stamped, hparams params rfl, pure_bind]
  | captured params closure => rw [BlockKind.stamped, hparams params rfl, pure_bind]

/-- No definition in the block has captured anything yet. -/
inductive Block.Uncaptured : Block → Prop
  | intro {b : Block} (captures : b.captures = []) (rules : ∀ c, Node.block c ∈ b.rules → c.Uncaptured) :
      Block.Uncaptured b

/-- A tree as it is written: neither blocks nor mixin calls are values, calls and accessors name only what
is among `names`, and nothing is captured. -/
structure Block.Authored (names : String → Prop) (b : Block) : Prop where
  /-- It keeps to the grammar. -/
  conforms : b.Conforms (.within names)
  /-- Nothing is captured. -/
  uncaptured : b.Uncaptured

/-- A rule of the grammar, and one that has grown from it. -/
def Node.GrownRule (names : String → Prop) (w : Pairing) (r r' : Node) : Prop :=
  r.Conforms (.within names) .rule ∧ r.Grown names w.rel r'

/-- A block of the grammar, and one that has grown from it. -/
def Block.GrownWithin (names : String → Prop) (w : Pairing) (b b' : Block) : Prop :=
  b.Conforms (.within names) ∧ b.Grown names w.rel b'

/-- Growing lasts while more stamps are paired. -/
lemma Node.GrownRule.mono {w' : Pairing} (hw : w ≤ w') {r r' : Node} (h : r.GrownRule names w r') :
    r.GrownRule names w' r' :=
  ⟨h.1, h.2.mono ((Lockstep.grown names).variation_mono hw)⟩

/-- The same for blocks. -/
lemma Block.GrownWithin.mono {w' : Pairing} (hw : w ≤ w') {b b' : Block} (h : b.GrownWithin names w b') :
    b.GrownWithin names w' b' :=
  ⟨h.1, h.2.mono ((Lockstep.grown names).variation_mono hw)⟩

/-- Only the second run stamps what was added. -/
lemma Node.stampedAll_grown {rules rules' : List Node} {stamps : Nat → Nat → Prop}
    (h : Padded (Node.Grown names stamps) (Variation.grown names stamps).Added rules rules')
    (hrules : ∀ r ∈ rules, ∀ r', r.Grown names stamps r' → ∀ w,
      (Lockstep.grown names).InStep w (Node.GrownRule names) (liftM r.stamped) (liftM r'.stamped)) :
    (Lockstep.grown names).InStep w
      (fun w' => Padded (Node.GrownRule names w') (Variation.grown names stamps).Added)
      (liftM (Node.stampedAll rules)) (liftM (Node.stampedAll rules')) := by
  rw [Node.stampedAll_eq_mapM, Node.stampedAll_eq_mapM, liftState_mapM, liftState_mapM]
  refine .mapM_padded (fun w₁ w₂ hw r r' hr => hr.mono hw) h
    (fun w' _ r hr r' hrr' => hrules r hr r' hrr' w') ?_
  rintro _ ⟨d, rfl, hdefinition, hunnamed⟩
  refine ⟨Memory.Paired.fresh_right, (stamped_draws.1 (.block d)).rests ?_⟩
  rw [Node.stamped]
  have hidle : d.Idle names := ⟨hdefinition, hunnamed⟩
  exact hidle.stamped.bind fun _ hd => .pure hd.added

/-- A rule that has grown is stamped: if it is no block, nothing happens to it. -/
lemma Node.stamped_grown {stamps : Nat → Nat → Prop} {r r' : Node}
    (hr : r.Conforms (.within names) .rule) (h : r.Grown names stamps r')
    (hblock : ∀ c c', r = .block c → c.Grown names stamps c' →
      (Lockstep.grown names).InStep w (Block.GrownWithin names) (liftM c.stamped) (liftM c'.stamped)) :
    (Lockstep.grown names).InStep w (Node.GrownRule names) (liftM r.stamped) (liftM r'.stamped) := by
  cases hshape : r.shape.isBlock with
  | false =>
    obtain rfl := h.eq_of_strict Grammar.strict_within hr hshape
    rw [Node.stamped_eq_pure hshape fun k hk =>
      (hr.of_mem_values hk).stamped_eq_pure Grammar.strict_within]
    exact .pure ⟨hr, hr.alike_self Grammar.strict_within hshape _⟩
  | true =>
    cases r with
    | block c =>
      cases h with
      | leaf hleaf => cases hleaf
      | @block _ c' hc =>
        rw [Node.stamped, Node.stamped, liftState_bind, liftState_bind]
        exact (hblock c c' rfl hc).bind fun _ _ d d' hd => .pure ⟨.block rfl hd.1, .block hd.2⟩
    | _ => cases hshape

/-- **Stamping pairs the stamps of what grown trees have in common.** By induction on the block: both runs
draw a stamp for it, and these become partners; then its rules are stamped, and the second run draws
stamps for what was added while the first one waits. -/
theorem Block.stamped_grown {stamps : Nat → Nat → Prop} {b b' : Block} (hb : b.Authored names)
    (h : b.Grown names stamps b') :
    (Lockstep.grown names).InStep w (Block.GrownWithin names) (liftM b.stamped) (liftM b'.stamped) := by
  have key : (∀ n : Node, ∀ b, n = .block b → b.Authored names → ∀ b', b.Grown names stamps b' → ∀ w,
      (Lockstep.grown names).InStep w (Block.GrownWithin names) (liftM b.stamped) (liftM b'.stamped)) ∧
      ∀ b : Block, b.Authored names → ∀ b', b.Grown names stamps b' → ∀ w,
        (Lockstep.grown names).InStep w (Block.GrownWithin names) (liftM b.stamped)
          (liftM b'.stamped) := by
    refine Node.joint_induction ?_ ?_
    · intro n _ hblock b hb
      exact hblock b hb
    · rintro b hrules - - ⟨hconforms, ⟨hcaptures, huncaptured⟩⟩ b' h w
      have hrule : ∀ r ∈ b.rules, ∀ r', r.Grown names stamps r' → ∀ w,
          (Lockstep.grown names).InStep w (Node.GrownRule names) (liftM r.stamped)
            (liftM r'.stamped) := by
        intro r hr r' hrr' w
        have hrconforms := hconforms.of_mem_rules hr
        refine Node.stamped_grown hrconforms hrr' ?_
        rintro c c' rfl hc
        exact hrules _ hr c rfl ⟨hrconforms.of_block, huncaptured c hr⟩ c' hc w
      have hkind : b.kind.stamped = pure b.kind := hconforms.stampedKind_eq_pure Grammar.strict_within
      have halike := hconforms.kind_alike_self Grammar.strict_within hcaptures
      have hkinds := h.kind_eq_of_strict Grammar.strict_within hconforms hcaptures
      have hpadded := h.padded
      have hselectors := h.selectors
      obtain ⟨_, selectors, rules, kind⟩ := b
      obtain ⟨_, selectors', rules', kind'⟩ := b'
      obtain rfl : selectors' = selectors := hselectors
      obtain rfl : kind' = kind := hkinds
      replace hkind : kind'.stamped = pure kind' := hkind
      rw [Block.stamped, Block.stamped, hkind]
      simp only [pure_bind, liftState_bind]
      -- the stamps that are drawn here are partners from now on, whatever the rules draw later
      refine (Lockstep.grown names).freshStamp.bind fun w₁ _ stamp stamp' hstamp => ?_
      refine (Node.stampedAll_grown hpadded hrule).bind fun w₂ hw₂ rules rules' hstamped => ?_
      have hstampedRules : ∀ r ∈ rules, r.Conforms (.within names) .rule := by
        intro r hr
        obtain ⟨_, hr⟩ := hstamped.exists_of_mem hr
        exact hr.1
      exact .pure ⟨hconforms.of_rules rfl hstampedRules, .intro (Pairing.rel_mono hw₂ hstamp) (.refl rules)
        (hstamped.imp (fun _ _ _ hr => hr.2) fun _ hr => hr) (halike _)⟩
  exact key.2 b hb b' h w

/-! ## Compiling

Trees with stamps are compared directly. For trees from outside, stamping comes first, and it leaves trees
with paired stamps and memories that agree on them. -/

/-- Trees that imports stand for, under the same paths, of which the second ones have grown. -/
abbrev ImportsGrown (names : String → Prop) (stamps : Nat → Nat → Prop) :
    List (String × Block) → List (String × Block) → Prop :=
  ImportsAlike (.grown names stamps)

/-- Two compilations of trees with stamps. -/
lemma Compiler.compileWithin_grown {imports imports' : List (String × Block)} {root root' : Block}
    (himports : ∀ path tree, (path, tree) ∈ imports → tree.Conforms (.within names))
    (hroot : root.Conforms (.within names)) (hgrownImports : ImportsGrown names w.rel imports imports')
    (hgrown : root.Grown names w.rel root') (o : Options) (fuel : Nat) :
    (Lockstep.grown names).InStep w (fun _ => Eq) (Compiler.compileWithin fuel ⟨o, imports⟩ root)
      (Compiler.compileWithin fuel ⟨o, imports'⟩ root') :=
  Block.render_inStep (.grown names) (.inl rfl) (Compiler.environments_of_alike hgrownImports o)
    (Compiler.env_serves himports o) (by simp [Scope.Conforms]) .nil [] hroot hgrown

/-- The trees that imports stand for are stamped one after the other. -/
lemma Compiler.stamped_grown {stamps : Nat → Nat → Prop} {imports imports' : List (String × Block)}
    (himports : ∀ path tree, (path, tree) ∈ imports → tree.Authored names)
    (h : ImportsGrown names stamps imports imports') (o : Options) :
    (Lockstep.grown names).InStep w
      (fun w' c c' => ∃ stamped stamped', c = ⟨o, stamped⟩ ∧ c' = ⟨o, stamped'⟩ ∧
        List.Forall₂ (fun e e' => e'.1 = e.1 ∧ e.2.GrownWithin names w' e'.2) stamped stamped')
      (liftM (Compiler.stamped ⟨o, imports⟩)) (liftM (Compiler.stamped ⟨o, imports'⟩)) := by
  unfold Compiler.stamped
  simp only [liftState_bind, liftState_mapM]
  have hentries : (Lockstep.grown names).InStep w
      (fun w' => List.Forall₂ fun e e' => e'.1 = e.1 ∧ e.2.GrownWithin names w' e'.2)
      (imports.mapM fun entry => do return (entry.1, ← entry.2.stamped))
      (imports'.mapM fun entry => do return (entry.1, ← entry.2.stamped)) := by
    refine .mapM (fun w₁ w₂ hw e e' he => ⟨he.1, he.2.mono hw⟩) h ?_
    rintro w' - entry hmem entry' ⟨hpath, htree⟩
    exact (Block.stamped_grown (himports _ _ hmem) htree).bind fun _ _ tree tree' htrees =>
      .pure ⟨hpath, htrees⟩
  exact hentries.bind fun w' _ stamped stamped' hstamped => .pure ⟨stamped, stamped', rfl, rfl, hstamped⟩

/-- The second block is the first one with `d` added, in one place at any depth. -/
inductive Block.InsertedInto (d : Block) : Block → Block → Prop
  | here {stamp : Nat} {selectors : List Selector} {before after : List Node} {kind : BlockKind} :
      Block.InsertedInto d ⟨stamp, selectors, before ++ after, kind⟩
        ⟨stamp, selectors, before ++ .block d :: after, kind⟩
  | inside {stamp : Nat} {selectors : List Selector} {before after : List Node} {kind : BlockKind}
      {b b' : Block} (h : Block.InsertedInto d b b') :
      Block.InsertedInto d ⟨stamp, selectors, before ++ .block b :: after, kind⟩
        ⟨stamp, selectors, before ++ .block b' :: after, kind⟩

/-- Adding one idle definition is one way to grow. -/
lemma Block.InsertedInto.grown {d b b' : Block} (h : d.InsertedInto b b') (hd : d.Idle names)
    {stamps : Nat → Nat → Prop} {P : Nat → Prop} (hstamps : ∀ s, P s → stamps s s)
    (hb : b.StampsIn P) : b.Grown names stamps b' := by
  have hself : ∀ rules : List Node, (∀ r ∈ rules, r.StampsIn P) →
      Padded (Node.Grown names stamps) (Variation.grown names stamps).Added rules rules :=
    fun rules hrules => .of_forall₂ (List.forall₂_same.mpr fun r hr =>
      (alike_of_stampsIn hstamps).1 r (hrules r hr))
  induction h with
  | here =>
    have hsame : Block.Grown names stamps _ _ := (alike_of_stampsIn hstamps).2 _ hb
    have hrules := fun r => hb.of_mem_rules (r := r)
    rw [List.forall_mem_append] at hrules
    exact .intro hsame.stamp (.refl _)
      ((hself _ hrules.1).append (.extra hd.added (hself _ hrules.2))) hsame.kind
  | inside _ ih =>
    have hsame : Block.Grown names stamps _ _ := (alike_of_stampsIn hstamps).2 _ hb
    have hrules := fun r => hb.of_mem_rules (r := r)
    rw [List.forall_mem_append, List.forall_mem_cons] at hrules
    obtain ⟨hbefore, hinner, hafter⟩ := hrules
    exact .intro hsame.stamp (.refl _)
      ((hself _ hbefore).append (.cons (.block (ih hinner.of_block)) (hself _ hafter))) hsame.kind

/-- **Definitions that nothing names are inert.** A style sheet to which idle definitions are added, in
itself or in what it imports, compiles to the same text or fails for the same cause. So do trees with
stamps, with any fuel and from every memory that knows the stamps and in which nothing was looked up but
what is among `names`. -/
theorem Compiler.compileTree_grown {imports imports' : List (String × Block)} {root root' : Block}
    (o : Options) :
    ((∀ path tree, (path, tree) ∈ imports → tree.Authored names) → root.Authored names →
      ImportsGrown names (fun _ _ => True) imports imports' →
      root.Grown names (fun _ _ => True) root' →
      Compiler.compileTree ⟨o, imports'⟩ root' = Compiler.compileTree ⟨o, imports⟩ root) ∧
    ∀ m : Memory, m.Holds (Selector.Within names) →
      (∀ path tree, (path, tree) ∈ imports → tree.Conforms (.within names)) →
      root.Conforms (.within names) →
      ImportsGrown names (Pairing.same m.readings.size).rel imports imports' →
      root.Grown names (Pairing.same m.readings.size).rel root' →
      ∀ fuel : Nat, (outcome (Compiler.compileWithin fuel ⟨o, imports'⟩ root') m).1 =
        (outcome (Compiler.compileWithin fuel ⟨o, imports⟩ root) m).1 := by
  constructor
  · intro himports hroot hgrownImports hgrown
    have hrun : (Lockstep.grown names).InStep .none (fun _ => Eq)
        (do
          let c ← Compiler.stamped ⟨o, imports⟩
          let root ← root.stamped
          c.compile root)
        (do
          let c ← Compiler.stamped ⟨o, imports'⟩
          let root ← root'.stamped
          c.compile root) := by
      refine (Compiler.stamped_grown himports hgrownImports o).bind ?_
      rintro w₁ - _ _ ⟨stamped, stamped', rfl, rfl, htrees⟩
      refine (Block.stamped_grown hroot hgrown).bind ?_
      rintro w₂ hw₂ b b' ⟨hb, hblocks⟩
      refine Compiler.compileWithin_grown (fun path tree hmem => ?_) hb (htrees.imp ?_) hblocks o _
      · have hpadded : Padded _ (fun _ => False) _ _ := .of_forall₂ htrees
        obtain ⟨_, -, hentry⟩ := hpadded.exists_of_mem hmem
        exact hentry.1
      · intro entry entry' hentry
        exact ⟨hentry.1, (hentry.2.mono hw₂).2⟩
    exact hrun.result_eq Memory.paired_none fun _ _ hexcused => hexcused
  · intro m hm himports hroot hgrownImports hgrown fuel
    exact (Compiler.compileWithin_grown himports hroot hgrownImports hgrown o fuel).result_eq
      (Memory.paired_same hm) fun _ _ hexcused => hexcused

/-- A variable and a definition that reads it, with rules added to the definition. -/
def Block.hostSample (added : List Node) : Block :=
  ⟨0, [], [.declaration (.plain "@c" (.text "red")), .block ⟨0, [⟨[⟨.descendant, ".m"⟩]⟩],
    added ++ [.declaration (.plain "color" (.var "@c"))], .definition []⟩], .root⟩

/-- A block that calls the definition from an import, with rules added before the call. -/
def Block.guestSample (added : List Node) : Block :=
  ⟨0, [], [.atImport "p", .block ⟨0, [⟨[⟨.descendant, "a"⟩]⟩],
    added ++ [.mixin ⟨⟨[⟨.descendant, ".m"⟩]⟩, []⟩], .plain⟩], .root⟩

/-- A definition that would fail in every call: it reads a variable that is not declared, and calls
itself. -/
def Block.lostSample : Block :=
  ⟨0, [⟨[⟨.descendant, ".lost"⟩]⟩], [.declaration (.plain "width" (.var "@nowhere")),
    .mixin ⟨⟨[⟨.descendant, ".lost"⟩]⟩, []⟩], .definition [.required "@x"]⟩

/-- The import is as it would be written. -/
lemma Block.hostSample_authored : (Block.hostSample []).Authored (· = ".m") := by
  constructor
  · refine .without_params rfl ?_
    simp only [hostSample, List.mem_cons, List.not_mem_nil, or_false, forall_eq_or_imp, forall_eq]
    refine ⟨.declaration trivial (.text _), .block rfl (.intro ?_ ?_ ?_)⟩
    · simp only [List.nil_append, List.mem_singleton, forall_eq]
      exact .declaration trivial (.var trivial _)
    · simp [Block.defaults, BlockKind.params?]
    · simp [Block.captures, BlockKind.closure?]
  · refine .intro rfl ?_
    simp only [hostSample, List.mem_cons, List.not_mem_nil, or_false, reduceCtorEq, false_or,
      Node.block.injEq, forall_eq]
    exact .intro rfl (by simp)

/-- So is the tree that imports it. -/
lemma Block.guestSample_authored : (Block.guestSample []).Authored (· = ".m") := by
  constructor
  · refine .without_params rfl ?_
    simp only [guestSample, List.mem_cons, List.not_mem_nil, or_false, forall_eq_or_imp, forall_eq]
    refine ⟨.atImport trivial, .block rfl (.without_params rfl ?_)⟩
    simp only [List.nil_append, List.mem_singleton, forall_eq]
    exact .intro ⟨rfl, by simp [Selector.Within]⟩ (by simp [Node.values]) (by simp)
  · refine .intro rfl ?_
    simp only [guestSample, List.mem_cons, List.not_mem_nil, or_false, reduceCtorEq, false_or,
      Node.block.injEq, forall_eq]
    exact .intro rfl (by simp)

/-- Nothing in the two trees names the definition. -/
lemma Block.lostSample_idle : Block.lostSample.Idle (· = ".m") := by
  refine ⟨rfl, ?_⟩
  simp only [lostSample, List.mem_singleton, forall_eq, List.head?_cons, Option.some.injEq]
  rintro e rfl
  decide

/-- All stamps of the import are zero. -/
lemma Block.hostSample_stampsIn : (Block.hostSample []).StampsIn (· = 0) := by
  have hleaf : ∀ n : Node, n.shape.isBlock = false → n.values = [] → n.StampsIn (· = 0) :=
    fun n hblock hvalues => .of_values hblock (by simp [hvalues])
  refine .without_params rfl rfl ?_
  simp only [hostSample, List.mem_cons, List.not_mem_nil, or_false, forall_eq_or_imp, forall_eq]
  refine ⟨.of_values rfl ?_, .block (.intro rfl ?_ ?_ ?_)⟩
  · simpa [Node.values] using hleaf _ rfl rfl
  · simp only [List.nil_append, List.mem_singleton, forall_eq]
    exact .of_values rfl (by simpa [Node.values] using hleaf _ rfl rfl)
  · simp [Block.defaults, BlockKind.params?]
  · simp [Block.captures, BlockKind.closure?]

/-- So are those of the tree that imports it. -/
lemma Block.guestSample_stampsIn : (Block.guestSample []).StampsIn (· = 0) := by
  refine .without_params rfl rfl ?_
  simp only [guestSample, List.mem_cons, List.not_mem_nil, or_false, forall_eq_or_imp, forall_eq]
  refine ⟨.of_values rfl (by simp [Node.values]), .block (.without_params rfl rfl ?_)⟩
  simp only [List.nil_append, List.mem_singleton, forall_eq]
  exact .of_values rfl (by simp [Node.values])

/-- The definition goes into the imported one, whose rules are copied to the call, and into the block
with the call; the trees are compiled from outside, and as they are after one stamp was drawn. -/
theorem Compiler.compileTree_grown_lostSample :
    let imports := [("p", Block.hostSample [])]
    let imports' := [("p", Block.hostSample [.block .lostSample])]
    let root := Block.guestSample []
    let root' := Block.guestSample [.block .lostSample]
    let m := Memory.empty.fresh.2
    let css := "a \x7b\n  color: red;\n\x7d\n"
    (∀ path tree, (path, tree) ∈ imports → tree.Authored (· = ".m")) ∧ root.Authored (· = ".m") ∧
      m.Holds (Selector.Within (· = ".m")) ∧
      ImportsGrown (· = ".m") (fun _ _ => True) imports imports' ∧
      root.Grown (· = ".m") (fun _ _ => True) root' ∧
      ImportsGrown (· = ".m") (Pairing.same m.readings.size).rel imports imports' ∧
      root.Grown (· = ".m") (Pairing.same m.readings.size).rel root' ∧
      Compiler.compileTree ⟨{}, imports⟩ root = .ok css ∧
      Compiler.compileTree ⟨{}, imports'⟩ root' = .ok css ∧
      (outcome (Compiler.compile ⟨{}, imports⟩ root) m).1 = .ok css ∧
      (outcome (Compiler.compile ⟨{}, imports'⟩ root') m).1 = .ok css := by
  intro imports imports' root root' m css
  have hcss : Compiler.compileTree ⟨{}, imports⟩ root = .ok css := by decide +kernel
  have hshared : (outcome (Compiler.compile ⟨{}, imports⟩ root) m).1 = .ok css := by decide +kernel
  have himports : ∀ path tree, (path, tree) ∈ imports → tree.Authored (· = ".m") := by
    intro path tree hmem
    simp only [imports, List.mem_singleton, Prod.mk.injEq] at hmem
    rw [hmem.2]
    exact Block.hostSample_authored
  have hroot : root.Authored (· = ".m") := Block.guestSample_authored
  have hm : m.Holds (Selector.Within (· = ".m")) := Memory.holds_empty.fresh
  have hhost : Block.lostSample.InsertedInto (.hostSample [])
      (.hostSample [.block .lostSample]) :=
    @Block.InsertedInto.inside _ 0 [] [.declaration (.plain "@c" (.text "red"))] [] .root _ _
      (@Block.InsertedInto.here _ _ _ [] _ _)
  have hguest : Block.lostSample.InsertedInto root root' :=
    @Block.InsertedInto.inside _ 0 [] [.atImport "p"] [] .root _ _ (@Block.InsertedInto.here _ _ _ [] _ _)
  have hgrown : ∀ stamps : Nat → Nat → Prop, stamps 0 0 →
      ImportsGrown (· = ".m") stamps imports imports' ∧ root.Grown (· = ".m") stamps root' := by
    intro stamps hzero
    have hstamps : ∀ s, s = 0 → stamps s s := fun s hs => hs ▸ hzero
    exact ⟨.cons ⟨rfl, hhost.grown Block.lostSample_idle hstamps Block.hostSample_stampsIn⟩ .nil,
      hguest.grown Block.lostSample_idle hstamps Block.guestSample_stampsIn⟩
  obtain ⟨hany, hanyRoot⟩ := hgrown (fun _ _ => True) trivial
  obtain ⟨hsame, hsameRoot⟩ := hgrown (Pairing.same m.readings.size).rel ⟨rfl, by decide⟩
  refine ⟨himports, hroot, hm, hany, hanyRoot, hsame, hsameRoot, hcss, ?_, hshared, ?_⟩
  · rw [(Compiler.compileTree_grown {}).1 himports hroot hany hanyRoot]
    exact hcss
  · have hconforms := fun path tree hmem => (himports path tree hmem).conforms
    have hsameText := (Compiler.compileTree_grown {}).2 m hm hconforms hroot.conforms hsame hsameRoot
      defaultFuel
    exact hsameText.trans hshared

end Stylesheet
