import Stylesheet.Proofs.Comparison
import Stylesheet.Proofs.Likeness
import Stylesheet.Proofs.Preservation
import Stylesheet.Proofs.Readings

/-!
# Two runs in step

Many statements compare two runs of evaluation: under other options, from another memory, with more fuel, on
a tree with other stamps, with its rules in another order or with definitions added to it. In all of them the
two runs take the same steps. This file walks through the rules of evaluation once, for all of these
comparisons.

* A `Lockstep` is a `Comparison` for runs on trees of a grammar that differ by a `Variation`. What it owes
  concerns the few places where the runs can tell the trees apart: drawing a stamp, reading a selector, taking
  rules in another order, coming upon a definition that was added.
* **Searches in step** (`Block.find_inStep`, `resolve_inStep`), one lemma **for each rule of evaluation**, and
  from them **the evaluator in step with itself** (`evaluator_inStep`).
-/

namespace Stylesheet

variable {α β γ δ : Type}

/-! ## What a comparison of trees owes

The fields of `Lockstep` are all that has to be proved for a new comparison of runs. The rest of this
file, and that of the renderings, holds for each of them. -/

/-- The selectors that may be looked up in trees of the grammar. -/
def Grammar.LooksUp (g : Grammar) (s : Selector) : Prop :=
  ∃ p, g.allows p (.accessor s) ∨ g.allows p (.mixin s)

/-- A comparison of runs on trees of a grammar that differ by a variation. -/
structure Lockstep extends Comparison where
  /-- The trees of the first run keep to this grammar. -/
  grammar : Grammar
  /-- What may differ between the trees of the two runs. -/
  variation : World → Variation
  /-- What may differ once may differ from then on. -/
  variation_mono : ∀ {w w' : World}, w ≤ w' → (variation w).Le (variation w')
  /-- The texts of values do not tell the trees apart. -/
  hidden : ∀ w, (variation w).Hidden grammar
  /-- The selectors that the two runs may look up at one time. -/
  sought : Selector → Selector → Prop
  /-- A selector in a tree is looked up as it is. -/
  sought_self : ∀ {s}, grammar.LooksUp s → sought s s
  /-- The same blocks go by them. -/
  sought_agrees : ∀ {s s'}, sought s s' → ∀ own : Selector, own.agrees s' = own.agrees s
  /-- What is left to look up inside is looked up at one time. -/
  sought_tail : ∀ {s s'}, sought s s' → Option.Rel sought s.tail? s'.tail?
  /-- A definition that was added goes by none of them. -/
  sought_added : ∀ {w s s' l}, sought s s' → (variation w).added l →
    (l.any fun own => own.agrees s') = false
  /-- New blocks get stamps that belong together. -/
  fresh : ∀ {w m m'}, memories w m m' → ∃ w', w ≤ w' ∧
    (variation w').stamps m.readings.size m'.readings.size ∧ memories w' m.fresh.2 m'.fresh.2
  /-- Blocks whose stamps belong together read selectors at one time. -/
  reading : ∀ {w a b s s' m m'}, (variation w).stamps a b → sought s s' → memories w m m' →
    sought ((readAt a s).run m).1 ((readAt b s').run m').1 ∧
      memories w ((readAt a s).run m).2 ((readAt b s').run m').2
  /-- Where rules change places, no run depends on the other. -/
  apart : ∀ {w p q}, (variation w).exchanges p q → toComparison.Apart
  /-- Where definitions are added, the second run may draw stamps for them by itself. -/
  alone : ∀ {w l}, (variation w).added l → toComparison.Alone

namespace Lockstep

/-- Two runs that look up the same selectors, on trees that differ in their stamps only. -/
def ofStamps (memories : Memory → Memory → Prop) (excuses : EvalError → Prop)
    (stamps : Nat → Nat → Prop)
    (fresh : ∀ {m m'}, memories m m' →
      stamps m.readings.size m'.readings.size ∧ memories m.fresh.2 m'.fresh.2)
    (reading : ∀ {a b m m'} (s : Selector), stamps a b → memories m m' →
      ((readAt b s).run m').1 = ((readAt a s).run m).1 ∧
        memories ((readAt a s).run m).2 ((readAt b s).run m').2) : Lockstep where
  World := Unit
  order := Comparison.still
  memories _ := memories
  excuses := excuses
  grammar := .any
  variation _ := .stampsOnly stamps
  variation_mono _ := .refl _
  hidden _ := .inr fun _ h => h
  sought s s' := s' = s
  sought_self _ := rfl
  sought_agrees h own := by rw [h]
  sought_tail := by
    rintro _ s rfl
    cases s.tail? with
    | none => exact .none
    | some t => exact .some rfl
  sought_added _ h := h.elim
  fresh hm := ⟨(), trivial, fresh hm⟩
  reading := by
    rintro - a b _ s m m' hab rfl hm
    exact reading s hab hm
  apart h := h.elim
  alone h := h.elim

variable {L : Lockstep} {w w' : L.World}

/-- Both runs draw a stamp. -/
lemma freshStamp :
    L.InStep w (fun w' => (L.variation w').stamps) (liftM freshStamp) (liftM freshStamp) := by
  intro m m' hm
  obtain ⟨w', hw', hstamps, hmemories⟩ := L.fresh hm
  exact .inr ⟨w', hw', .ok hstamps, hmemories⟩

/-- Both runs read a selector. -/
lemma readAt {a b : Nat} {s s' : Selector} (hstamps : (L.variation w).stamps a b)
    (hs : L.sought s s') :
    L.InStep w (fun _ => L.sought) (liftM (readAt a s)) (liftM (readAt b s')) := by
  intro m m' hm
  obtain ⟨hsought, hmemories⟩ := L.reading hstamps hs hm
  exact .inr ⟨w, le_refl w, .ok hsought, hmemories⟩

/-- The rules of a block are taken one after the other. What was exchanged has results that may be
exchanged, and the second run rests on what was added. -/
lemma mapRules {S : L.World → γ → δ → Prop} {E : γ → γ → Prop} {X : δ → Prop} {P : Node → γ → Prop}
    {f : Node → EvalM γ} {f' : Node → EvalM δ} {rules rules' : List Node} (hS : L.Lasting S)
    (hrules : RulesAlike (L.variation w) rules rules')
    (h : ∀ w', w ≤ w' → ∀ r ∈ rules, ∀ r', r.Alike (L.variation w') r' → L.InStep w' S (f r) (f' r'))
    (hP : ∀ r ∈ rules, Ensures (f r) (P r) fun _ => True)
    (hE : ∀ r s, (L.variation w).Exchanges r s → ∀ c d, P r c → P s d → E c d)
    (hX : ∀ r', (L.variation w).Added r' → Rests X (f' r')) :
    L.InStep w (fun w' => ShuffledBy E (S w') X) (rules.mapM f) (rules'.mapM f') := by
  have hstep : ∀ w', w ≤ w' → ∀ r ∈ rules, ∀ r', r.Alike (L.variation w) r' →
      L.InStep w' S (f r) (f' r') :=
    fun w' hw' r hr r' hrr' => h w' hw' r hr r' (hrr'.mono (L.variation_mono hw'))
  have hrests : ∀ r', (L.variation w).Added r' → L.Alone ∧ Rests X (f' r') := by
    intro r' hr'
    obtain ⟨d, -, -, hadded⟩ := id hr'
    exact ⟨L.alone hadded, hX r' hr'⟩
  by_cases hexchanges : ∃ p q, (L.variation w).exchanges p q
  · obtain ⟨p, q, hpq⟩ := hexchanges
    obtain ⟨hall, A, B, hmemories⟩ := L.apart hpq
    exact Comparison.InStep.mapM_shuffled hmemories hS hrests hall hrules hstep hP hE
  · -- the rules are in one order
    obtain ⟨mid, hshuffle, hpadded⟩ := hrules
    obtain rfl := hshuffle.eq_of_forall_not fun r s hrs => hexchanges ⟨_, _, hrs⟩
    exact (Comparison.InStep.mapM_padded hS hpadded hstep hrests).imp fun _ _ _ _ h => .of_padded h

/-- Two environments in which the runs take the same steps. -/
structure Environments (L : Lockstep) (w : L.World) (env env' : Env) : Prop where
  /-- The runs are nested equally deep. -/
  depth : env'.depth = env.depth
  /-- The limits are the same, or the second is higher and running into the first is excused. -/
  limit : env'.options.maxDepth = env.options.maxDepth ∨
    env.options.maxDepth ≤ env'.options.maxDepth ∧
      ∀ context, L.excuses (.recursionLimit env.options.maxDepth context)
  /-- Unknown functions are treated alike, or they are faults of the first run that are excused. -/
  unknown : env'.options.unknownFunctions = env.options.unknownFunctions ∨
    env.options.unknownFunctions = .fault ∧ ∀ name, L.excuses (.unknownFunction name)
  /-- Imports stand for alike trees. -/
  imports : ∀ path, Option.Rel (Block.Alike (L.variation w)) (env.importTree? path)
    (env'.importTree? path)

/-- One environment for both runs, if the trees that it imports are alike to themselves. -/
lemma Environments.refl {env : Env}
    (h : ∀ path tree, env.importTree? path = some tree → tree.Alike (L.variation w) tree) :
    L.Environments w env env := by
  refine ⟨rfl, .inl rfl, .inl rfl, fun path => ?_⟩
  cases htree : env.importTree? path with
  | none => exact .none
  | some tree => exact .some (h path tree htree)

/-- One level deeper. -/
lemma Environments.deeper {env env' : Env} (h : L.Environments w env env') :
    L.Environments w env.deeper env'.deeper :=
  ⟨congrArg (· + 1) h.depth, h.limit, h.unknown, h.imports⟩

/-- Environments stay as they are while the world grows. -/
lemma Environments.mono {env env' : Env} (h : L.Environments w env env') (hw : w ≤ w') :
    L.Environments w' env env' := by
  refine ⟨h.depth, h.limit, h.unknown, fun path => ?_⟩
  have htrees := h.imports path
  generalize env.importTree? path = tree, env'.importTree? path = tree' at htrees ⊢
  cases htrees with
  | some htree => exact .some (htree.mono (L.variation_mono hw))
  | none => exact .none

/-- The guard stops both runs, or only the first one, with an excuse. -/
lemma guarded {R : L.World → α → β → Prop} {env env' : Env} (h : L.Environments w env env')
    {context : String} {run : Env → EvalM α} {run' : Env → EvalM β}
    (hrun : L.InStep w R (run env.deeper) (run' env'.deeper)) :
    L.InStep w R (env.guarded context run) (env'.guarded context run') := by
  unfold Env.guarded
  rw [h.depth]
  rcases h.limit with hlimit | ⟨hle, hexcused⟩
  · rw [hlimit]
    split
    · exact hrun
    · exact .throw _
  · split
    · next hlt =>
      rw [if_pos (Nat.lt_of_lt_of_le hlt hle)]
      exact hrun
    · exact .excused (hexcused context)

variable (L) in
/-- The fuel of the second run is that of the first, or it is more and lack of fuel is excused. -/
def Suffices (fuel fuel' : Nat) : Prop :=
  fuel' = fuel ∨ fuel ≤ fuel' ∧ L.excuses .outOfFuel

/-- Without fuel, the first run stops with an excuse or the second one stops as well. -/
lemma Suffices.zero {R : L.World → α → β → Prop} {fuel' : Nat} (h : L.Suffices 0 fuel') {y : EvalM β}
    (hy : fuel' = 0 → y = throw .outOfFuel) : L.InStep w R (throw .outOfFuel) y := by
  rcases h with rfl | ⟨-, hexcused⟩
  · rw [hy rfl]
    exact .throw _
  · exact .excused hexcused

/-- With fuel for one step more, the second run has fuel for it too, and enough is left. -/
lemma Suffices.succ {fuel fuel' : Nat} (h : L.Suffices (fuel + 1) fuel') :
    ∃ k, fuel' = k + 1 ∧ L.Suffices fuel k := by
  rcases h with rfl | ⟨hle, hexcused⟩
  · exact ⟨fuel, rfl, .inl rfl⟩
  · exact ⟨fuel' - 1, by omega, .inr ⟨by omega, hexcused⟩⟩

end Lockstep

/-- Two evaluators that take the same steps. -/
structure Evaluator.InStep (L : Lockstep) (ev ev' : Evaluator) : Prop where
  /-- What the first one gives keeps to the grammar. -/
  respects : ev.Respects L.grammar
  /-- On nodes. -/
  node : ∀ {w : L.World} {env env' : Env} {scope scope' : Scope} {p : Place} {n n' : Node},
    L.Environments w env env' → Scope.Conforms L.grammar scope →
    Scope.Alike (L.variation w) scope scope' → n.Conforms L.grammar p → n.Alike (L.variation w) n' →
    L.InStep w (fun w' => Node.Alike (L.variation w')) (ev.node env scope n) (ev'.node env' scope' n')
  /-- On blocks. -/
  block : ∀ {w : L.World} {env env' : Env} {scope scope' : Scope} {b b' : Block},
    L.Environments w env env' → Scope.Conforms L.grammar scope →
    Scope.Alike (L.variation w) scope scope' → b.Conforms L.grammar → b.Alike (L.variation w) b' →
    L.InStep w (fun w' => Block.Alike (L.variation w')) (ev.block env scope b)
      (ev'.block env' scope' b')

variable {L : Lockstep} {w : L.World}

/-! ## Searches

A search goes through the blocks of a frame in their order, and reads the selector at each of them.
Exchanges leave blocks in their order, and what was added is passed over, so the matches correspond one by
one. -/

/-- Only blocks are found. -/
lemma Block.findAmong_filter (rules : List Node) (s : Selector) :
    Block.findAmong (rules.filter fun r => r.shape.isBlock) s = Block.findAmong rules s := by
  induction rules with
  | nil => rfl
  | cons r rest ih =>
    cases hblock : r.shape.isBlock with
    | false =>
      rw [List.filter_cons_of_neg (by simp [hblock]), ih, Block.findAmong_of_not_block hblock]
    | true =>
      rw [List.filter_cons_of_pos (by simp [hblock])]
      cases r with
      | block child => rw [Block.findAmong_block, ih, Block.findAmong_block]
      | _ => cases hblock

/-- Exchanges leave the blocks in their order. -/
lemma Block.findAmong_of_shuffled {V : Variation} {rules mid : List Node}
    (h : Shuffled V.Exchanges rules mid) (s : Selector) :
    Block.findAmong rules s = Block.findAmong mid s := by
  have hfilter : mid.filter (fun r => r.shape.isBlock) = rules.filter fun r => r.shape.isBlock := by
    rw [← List.filterMap_eq_filter]
    refine h.filterMap_eq fun r s hrs => ?_
    rcases hrs.independent.not_block with hblock | hblock
    · exact .inl (by simp [Option.guard, hblock])
    · exact .inr (by simp [Option.guard, hblock])
  rw [← Block.findAmong_filter, ← hfilter, Block.findAmong_filter]

/-- Alike blocks go by selectors that are looked up at one time, or neither does. -/
lemma Block.Alike.answersTo {b b' : Block} (h : b.Alike (L.variation w) b') {s s' : Selector}
    (hs : L.sought s s') : b'.answersTo s' = b.answersTo s := by
  have hagrees : (fun own : Selector => own.agrees s') = fun own => own.agrees s :=
    funext fun own => L.sought_agrees hs own
  rw [Block.answersTo, h.selectors, Block.answersTo, hagrees]

/-- A definition that was added is passed over. -/
lemma Lockstep.findHere_added {r : Node} (h : (L.variation w).Added r) {s s' : Selector}
    (hs : L.sought s s') (rest : List Node) :
    Block.findAmong (r :: rest) s' = Block.findAmong rest s' := by
  obtain ⟨d, rfl, -, hadded⟩ := h
  have hanswers : d.answersTo s' = false := L.sought_added hs hadded
  rw [Block.findAmong_block, Block.findHere, hanswers]
  simp

/-- Two lists of matches of alike blocks. -/
abbrev MatchesAlike (V : Variation) : List Match → List Match → Prop :=
  List.Forall₂ (Match.Alike V)

/-- Matches in one child. -/
lemma Block.findHere_inStep {child child' : Block} (h : child.Alike (L.variation w) child')
    (hfind : ∀ s s', L.sought s s' → L.InStep w (fun w' => MatchesAlike (L.variation w'))
      (liftM (child.find s)) (liftM (child'.find s'))) {s s' : Selector} (hs : L.sought s s') :
    L.InStep w (fun w' => MatchesAlike (L.variation w')) (liftM (child.findHere s))
      (liftM (child'.findHere s')) := by
  unfold Block.findHere
  rw [h.answersTo hs]
  have htails := L.sought_tail hs
  split
  · generalize s.tail? = t, s'.tail? = t' at htails
    cases htails with
    | none => exact .pure (.cons ⟨h, .nil⟩ .nil)
    | some ht =>
      simp only [map_eq_pure_bind, liftState_bind]
      refine (hfind _ _ ht).bind fun w' hw' found found' hfound => .pure ?_
      refine List.forall₂_map_left_iff.mpr (List.forall₂_map_right_iff.mpr (hfound.imp ?_))
      intro f f' hf
      exact ⟨hf.block, .cons (h.mono (L.variation_mono hw')) hf.enclosing⟩
  · exact .pure .nil

/-- Matches among rules of which the second list has more. A rule that is no block finds nothing, nor does
what was added, whatever is sought; blocks keep their order, so they are searched in step. -/
lemma Block.findAmong_inStep {rules rules' : List Node}
    (h : Padded (Node.Alike (L.variation w)) (L.variation w).Added rules rules')
    (hfind : ∀ w', w ≤ w' → ∀ c, Node.block c ∈ rules → ∀ c', c.Alike (L.variation w') c' →
      ∀ s s', L.sought s s' → L.InStep w' (fun w' => MatchesAlike (L.variation w'))
        (liftM (c.find s)) (liftM (c'.find s'))) {s s' : Selector} (hs : L.sought s s') :
    L.InStep w (fun w' => MatchesAlike (L.variation w')) (liftM (Block.findAmong rules s))
      (liftM (Block.findAmong rules' s')) := by
  -- the children are searched one after the other, in worlds that grow
  have key : ∀ w', w ≤ w' → L.InStep w' (fun w' => MatchesAlike (L.variation w'))
      (liftM (Block.findAmong rules s)) (liftM (Block.findAmong rules' s')) := by
    induction h with
    | nil =>
      intro w' _
      rw [Block.findAmong, Block.findAmong]
      exact .pure .nil
    | @cons r r' _ _ hr _ ih =>
      intro w' hw'
      have hrest := ih fun w' hw' c hc => hfind w' hw' c (List.mem_cons_of_mem _ hc)
      cases hblock : r.shape.isBlock with
      | false =>
        rw [Block.findAmong_of_not_block hblock,
          Block.findAmong_of_not_block (by rw [hr.shape, hblock])]
        exact hrest w' hw'
      | true =>
        cases hr with
        | block hchild =>
          rw [Block.findAmong_block, Block.findAmong_block, liftState_bind, liftState_bind]
          have hchild := hchild.mono (L.variation_mono hw')
          refine (Block.findHere_inStep hchild (hfind w' hw' _ List.mem_cons_self _ hchild) hs).bind
            fun w₁ hw₁ here here' hhere => ?_
          rw [liftState_bind, liftState_bind]
          refine (hrest w₁ (le_trans hw' hw₁)).bind fun w₂ hw₂ others others' hothers => .pure ?_
          exact List.rel_append (hhere.imp fun _ _ hf => hf.mono (L.variation_mono hw₂)) hothers
        | leaf hleaf =>
          cases r with
          | block => cases hleaf
          | _ => cases hblock
        | _ => cases hblock
    | extra hr _ ih =>
      intro w' hw'
      rw [Lockstep.findHere_added hr hs]
      exact ih hfind w' hw'
  exact key w (le_refl w)

/-- **Searches in alike blocks are in step** and find alike blocks. -/
theorem Block.find_inStep {b b' : Block} (h : b.Alike (L.variation w) b') {s s' : Selector}
    (hs : L.sought s s') :
    L.InStep w (fun w' => MatchesAlike (L.variation w')) (liftM (b.find s)) (liftM (b'.find s')) := by
  have key : (∀ n : Node, ∀ b, n = .block b → ∀ w b', b.Alike (L.variation w) b' → ∀ s s',
      L.sought s s' → L.InStep w (fun w' => MatchesAlike (L.variation w')) (liftM (b.find s))
        (liftM (b'.find s'))) ∧
      ∀ b : Block, ∀ w b', b.Alike (L.variation w) b' → ∀ s s', L.sought s s' →
        L.InStep w (fun w' => MatchesAlike (L.variation w')) (liftM (b.find s))
          (liftM (b'.find s')) := by
    refine Node.joint_induction ?_ ?_
    · intro n _ hblock b hb
      exact hblock b hb
    · rintro b hrules - - w b' ⟨hstamp, hshuffle, hpadded, -⟩ s s' hs
      rw [Block.find, Block.find, liftState_bind, liftState_bind]
      refine (L.readAt hstamp hs).bind fun w₁ hw₁ t t' ht => ?_
      rw [Block.findAmong_of_shuffled hshuffle]
      have hlater := L.variation_mono hw₁
      exact Block.findAmong_inStep
        (hpadded.imp (fun _ _ _ hr => hr.mono hlater) fun _ hr => hr.mono hlater)
        (fun w₂ _ c hc => hrules _ (hshuffle.perm.mem_iff.mpr hc) c rfl w₂) ht
  exact key.2 b w b' h s s' hs

/-- The same for a search through scopes of alike blocks. A frame is of use in both runs or in neither:
what it finds are alike matches, and these agree on whether they take arguments. -/
theorem resolve_inStep {s : Selector} (hs : L.grammar.LooksUp s) (withArgs : Bool)
    {scope scope' : Scope} (h : Scope.Alike (L.variation w) scope scope') :
    L.InStep w (fun w' => MatchesAlike (L.variation w')) (liftM (resolve s withArgs scope))
      (liftM (resolve s withArgs scope')) := by
  have key : ∀ w', w ≤ w' → L.InStep w' (fun w' => MatchesAlike (L.variation w'))
      (liftM (resolve s withArgs scope)) (liftM (resolve s withArgs scope')) := by
    induction h with
    | nil => exact fun w' _ => .pure .nil
    | cons hb _ ih =>
      intro w' hw'
      rw [resolve, resolve, liftState_bind, liftState_bind]
      refine (Block.find_inStep (hb.mono (L.variation_mono hw')) (L.sought_self hs)).bind
        fun w₁ hw₁ found found' hfound => ?_
      have hfiltered : MatchesAlike (L.variation w₁)
          (found.filter fun candidate => candidate.accepts withArgs)
          (found'.filter fun candidate => candidate.accepts withArgs) := by
        refine List.rel_filter (fun f f' hf => ?_) hfound
        show f.accepts withArgs = true ↔ f'.accepts withArgs = true
        rw [Match.accepts, Match.accepts, hf.block.isDefinition]
      dsimp only
      generalize found.filter _ = l at hfiltered ⊢
      generalize found'.filter _ = l' at hfiltered ⊢
      cases hfiltered with
      | nil => exact ih w₁ (le_trans hw' hw₁)
      | cons hf hrest => exact .pure (.cons hf hrest)
  exact key w (le_refl w)

/-! ## New blocks

Where evaluation makes a block, both runs draw a stamp for it, and the two stamps belong together from
then on. -/

/-- Alike blocks with new rules. -/
lemma Block.rebuilt_inStep {b b' : Block} (h : b.Alike (L.variation w) b') {rules rules' : List Node}
    (hrules : RulesAlike (L.variation w) rules rules') :
    L.InStep w (fun w' => Block.Alike (L.variation w')) (liftM (b.rebuilt rules))
      (liftM (b'.rebuilt rules')) := by
  unfold Block.rebuilt
  rw [liftState_bind, liftState_bind]
  refine L.freshStamp.bind fun w' hw' stamp stamp' hstamp => .pure ?_
  have hlater := L.variation_mono hw'
  exact (h.mono hlater).with_rules hstamp (RulesAlike.mono hrules hlater)

/-- Alike definitions capture alike scopes. -/
lemma Block.capture_inStep {b b' : Block} (h : b.Alike (L.variation w) b') {scope scope' : Scope}
    (hscope : Scope.Alike (L.variation w) scope scope') :
    L.InStep w (fun w' => Block.Alike (L.variation w')) (liftM (b.capture scope))
      (liftM (b'.capture scope')) := by
  obtain ⟨stamp, selectors, rules, kind⟩ := b
  obtain ⟨stamp', selectors', rules', kind'⟩ := b'
  have hkind : kind.Alike (L.variation w) kind' := h.kind
  cases hkind with
  | definition _ =>
    simp only [Block.capture, liftState_bind]
    refine L.freshStamp.bind fun w' hw' new new' hnew => .pure ?_
    have hlater := L.variation_mono hw'
    have hold := h.mono hlater
    cases hold with
    | intro _ hshuffle hrules hkind =>
      cases hkind with
      | definition hparams =>
        exact .intro hnew hshuffle hrules (.captured hparams (hscope.mono hlater))
  | root | plain | captured => exact .pure h

/-- Frames of alike bound parameters. -/
lemma MixinCall.argumentFrame_inStep {bound bound' : List Node}
    (h : List.Forall₂ (Node.Alike (L.variation w)) bound bound') :
    L.InStep w (fun w' => Block.Alike (L.variation w')) (liftM (MixinCall.argumentFrame bound))
      (liftM (MixinCall.argumentFrame bound')) := by
  unfold MixinCall.argumentFrame
  rw [liftState_bind, liftState_bind]
  refine L.freshStamp.bind fun w' hw' stamp stamp' hstamp => .pure ?_
  have hlater := L.variation_mono hw'
  exact .intro hstamp (.refl _) (.of_forall₂ (h.imp fun _ _ hr => hr.mono hlater)) .plain

/-! ## The rules for nodes

By cases on how the two nodes are alike, which gives the same constructor on both sides. All that is
evaluated is evaluated in both runs, in the same order. -/

section rules

variable {ev ev' : Evaluator} {env env' : Env} {scope scope' : Scope} (hev : ev.InStep L ev')
  (henv : L.Environments w env env') (hscope : Scope.Conforms L.grammar scope)
  (halike : Scope.Alike (L.variation w) scope scope')

include hev henv hscope halike

/-- Values one after the other. -/
lemma Evaluator.InStep.values {l l' : List Node} (hl : ∀ n ∈ l, n.Conforms L.grammar .value)
    (h : List.Forall₂ (Node.Alike (L.variation w)) l l') :
    L.InStep w (fun w' => List.Forall₂ (Node.Alike (L.variation w'))) (l.mapM (ev.node env scope))
      (l'.mapM (ev'.node env' scope')) := by
  refine .mapM (fun _ _ hw _ _ hn => hn.mono (L.variation_mono hw)) h fun w' hw' n hn n' hnn' => ?_
  have hlater := L.variation_mono hw'
  exact hev.node (henv.mono hw') hscope (halike.mono hlater) (hl n hn) (hnn'.mono hlater)

/-- A variable is declared with alike values in both scopes, or in neither. A literal is taken as it is,
anything else is evaluated behind the guard. -/
lemma Evaluator.reference_inStep (name : String) :
    L.InStep w (fun w' => Node.Alike (L.variation w')) (ev.reference env scope name)
      (ev'.reference env' scope' name) := by
  have hfound := halike.lookup name
  unfold Evaluator.reference
  cases hd : scope.lookup? name with
  | none =>
    rw [hd] at hfound
    generalize scope'.lookup? name = found' at hfound
    cases hfound
    exact .throw _
  | some d =>
    rw [hd] at hfound
    generalize scope'.lookup? name = found' at hfound
    cases hfound with
    | some hdd' =>
      dsimp only
      rw [hdd'.value.isLiteral]
      split
      · exact .pure hdd'.value
      · exact L.guarded henv (hev.node henv.deeper hscope halike (hscope.lookup hd) hdd'.value)

/-- A function is applied to values of one text and one shape. A call that is passed through becomes the
text of its arguments, which is the same in both runs. -/
lemma Evaluator.call_inStep (name : String) {args args' : List Node}
    (hargs : ∀ a ∈ args, a.Conforms L.grammar .value)
    (hargsAlike : List.Forall₂ (Node.Alike (L.variation w)) args args') :
    L.InStep w (fun w' => Node.Alike (L.variation w')) (ev.call env scope name args)
      (ev'.call env' scope' name args') := by
  unfold Evaluator.call
  refine (hev.values henv hscope halike hargs hargsAlike).bind_ensures
    (Ensures.mapM fun a ha => hev.respects.value hscope (hargs a ha)) ?_
  intro w₁ hw₁ values values' hvalues hconforms
  cases Builtin.ofName? name with
  | some builtin =>
    refine .liftExcept (Builtin.apply_alike builtin ⟨rfl, ?_⟩)
    exact forall₂_imp_of_mem hvalues fun v hv v' hvv' => hvv'.same (L.hidden w₁) (hconforms v hv).1
  | none =>
    dsimp only
    have hprinted : Node.toCssAll values' = Node.toCssAll values :=
      Node.toCssAll_alike hvalues fun v hv v' hvv' => hvv'.toCss (L.hidden w₁) (hconforms v hv).1
    rcases henv.unknown with hsame | ⟨hfault, hexcused⟩
    · rw [hsame, hprinted]
      split
      · exact .throw _
      · refine (Comparison.InStep.liftExcept (R := fun _ => Eq) (concurs_rfl _)).bind ?_
        rintro w₂ - printed _ rfl
        exact .pure (.leaf rfl)
    · rw [hfault]
      exact .excused (hexcused name)

/-- An accessor finds alike blocks, or none in either run, and the last declarations of the name in them
have alike values. They are evaluated behind the guard, in the scope of the block that was found. -/
lemma Evaluator.accessor_inStep {a : Accessor} (ha : L.grammar.LooksUp a.selector) :
    L.InStep w (fun w' => Node.Alike (L.variation w')) (ev.accessor env scope a)
      (ev'.accessor env' scope' a) := by
  unfold Evaluator.accessor
  refine (resolve_inStep ha false halike).bind_ensures
    (Ensures.liftState (E := fun _ => True) (resolve_conforms hscope a.selector false)) ?_
  intro w₁ hw₁ found found' hfound hconforms
  cases hfound with
  | nil => exact .throw _
  | @cons first first' _ _ hfirst _ =>
    have hblock := (hconforms first List.mem_cons_self).block
    have hdeclared := hfirst.block.lastNamed a.key.name
    dsimp only
    cases hd : first.block.lastNamed? a.key.name with
    | none =>
      rw [hd] at hdeclared
      generalize first'.block.lastNamed? a.key.name = declared' at hdeclared
      cases hdeclared
      exact .throw _
    | some d =>
      rw [hd] at hdeclared
      generalize first'.block.lastNamed? a.key.name = declared' at hdeclared
      cases hdeclared with
      | some hdd' =>
        have henv₁ := henv.mono hw₁
        exact L.guarded henv₁ (hev.node henv₁.deeper (hscope.cons hblock)
          (.cons hfirst.block (halike.mono (L.variation_mono hw₁))) (hblock.lastNamed hd) hdd'.value)

/-- Both operands are evaluated, and then the operator sees values of one text. -/
lemma Evaluator.operation_inStep (op : Operator) {left left' right right' : Node}
    (hleft : left.Conforms L.grammar .value) (hright : right.Conforms L.grammar .value)
    (hleftAlike : left.Alike (L.variation w) left')
    (hrightAlike : right.Alike (L.variation w) right') :
    L.InStep w (fun w' => Node.Alike (L.variation w')) (ev.operation env scope op left right)
      (ev'.operation env' scope' op left' right') := by
  unfold Evaluator.operation
  refine (hev.node henv hscope halike hleft hleftAlike).bind_ensures
    (hev.respects.value hscope hleft) ?_
  intro w₁ hw₁ a a' ha haconforms
  have hlater := L.variation_mono hw₁
  refine (hev.node (henv.mono hw₁) hscope (halike.mono hlater) hright
    (hrightAlike.mono hlater)).bind_ensures (hev.respects.value hscope hright) ?_
  intro w₂ hw₂ b b' hb hbconforms
  refine .liftExcept (Node.operate_alike op ?_ (hb.same (L.hidden w₂) hbconforms.1))
  exact (ha.mono (L.variation_mono hw₂)).same (L.hidden w₂) haconforms.1

/-- The rules for nodes, by the constructors of likeness. Parts are evaluated in step and put together
again; a mixin call as a value stops both runs with one text. -/
lemma Node.evaluateWith_inStep {p : Place} {n n' : Node} (hn : n.Conforms L.grammar p)
    (hnode : n.Alike (L.variation w) n') :
    L.InStep w (fun w' => Node.Alike (L.variation w')) (n.evaluateWith ev env scope)
      (n'.evaluateWith ev' env' scope') := by
  cases hnode with
  | @leaf n hleaf =>
    cases n with
    | text | quoted | number | color | comment | atImport => exact .pure (.leaf rfl)
    | var name => exact ev.reference_inStep hev henv hscope halike name
    | accessor a => exact ev.accessor_inStep hev henv hscope halike ⟨p, .inl hn.allowed⟩
    | _ => cases hleaf
  | expression hitems =>
    exact (hev.values henv hscope halike (fun i hi => hn.of_mem_values hi) hitems).bind
      fun _ _ vs vs' hvs => .pure (.expression hvs)
  | list hitems =>
    exact (hev.values henv hscope halike (fun i hi => hn.of_mem_values hi) hitems).bind
      fun _ _ vs vs' hvs => .pure (.list hvs)
  | operation hleft hright =>
    exact ev.operation_inStep hev henv hscope halike _ (hn.of_mem_values (by simp [Node.values]))
      (hn.of_mem_values (by simp [Node.values])) hleft hright
  | call hargs =>
    exact ev.call_inStep hev henv hscope halike _ (fun a ha => hn.of_mem_values ha) hargs
  | declaration hvalue =>
    exact (hev.node henv hscope halike (hn.of_mem_values List.mem_cons_self) hvalue).bind
      fun _ _ v v' hv => .pure (.declaration hv)
  | block hb =>
    exact (hev.block henv hscope halike hn.of_block hb).bind fun _ _ c c' hc => .pure (.block hc)
  | @mixin selector args args' hargs =>
    have hsource : (Node.mixin ⟨selector, args'⟩).toSource = (Node.mixin ⟨selector, args⟩).toSource :=
      Node.Alike.toSource (L.hidden w) hn (by simp [Node.shape, Shape.isBlock]) (.mixin hargs)
    rw [Node.evaluateWith, Node.evaluateWith, MixinCall.toSource, MixinCall.toSource, hsource]
    exact .throw _

/-! ## Mixin calls

A call is in step from its arguments to the rules that it stands for. Its text in messages is the same in
both runs, although the arguments may differ in stamps. -/

omit hev henv hscope halike in
/-- Alike arguments are for the same slot, or they are misplaced alike. -/
lemma MixinCall.slot_alike {V : Variation} {call call' : MixinCall}
    (hcall : call'.toSource = call.toSource) {params params' : List Parameter}
    (hparams : List.Forall₂ (Parameter.Alike V) params params') {arg arg' : Argument}
    (harg : arg.Alike V arg') (position : Nat) (named : Bool) :
    call'.slot params' position named arg' = call.slot params position named arg := by
  cases harg with
  | positional _ => simp only [MixinCall.slot, hcall]
  | @named name _ _ _ =>
    have hnames : params'.map Parameter.name = params.map Parameter.name :=
      map_eq_of_forall₂ hparams fun p _ p' hp => hp.name
    have hindex : ∀ l : List Parameter, (l.findIdx? fun p => p.name == name) =
        (l.map Parameter.name).findIdx? fun other => other == name := by
      intro l
      rw [List.findIdx?_map]
      rfl
    simp only [MixinCall.slot, hindex, hnames, hcall]

omit hev henv hscope halike in
/-- Alike slots stay alike when alike values are put in one of them. -/
lemma forall₂_set {R : α → β → Prop} {l : List α} {l' : List β} (h : List.Forall₂ R l l') {a : α}
    {b : β} (hab : R a b) (i : Nat) : List.Forall₂ R (l.set i a) (l'.set i b) := by
  induction h generalizing i with
  | nil => exact .nil
  | cons hxy hrest ih =>
    cases i with
    | zero => exact .cons hab hrest
    | succ i => exact .cons hxy (ih i)

omit hev henv hscope halike in
/-- Two pairs of related lists, zipped. -/
lemma forall₂_zip {R : α → β → Prop} {S : γ → δ → Prop} {as : List α} {bs : List β} {cs : List γ}
    {ds : List δ} (h : List.Forall₂ R as bs) (h' : List.Forall₂ S cs ds) :
    List.Forall₂ (fun x y => R x.1 y.1 ∧ S x.2 y.2) (as.zip cs) (bs.zip ds) := by
  induction h generalizing cs ds with
  | nil => exact .nil
  | cons hab _ ih =>
    cases h' with
    | nil => exact .nil
    | cons hcd hrest => exact .cons ⟨hab, hcd⟩ (ih hrest)

omit hev henv hscope halike in
/-- Slots that may be empty stay alike while the world grows. -/
lemma Lockstep.lasting_slot :
    L.Lasting fun w (slot slot' : Option Node) => Option.Rel (Node.Alike (L.variation w)) slot slot' := by
  intro w w' hw slot slot' h
  cases h with
  | none => exact .none
  | some hv => exact .some (hv.mono (L.variation_mono hw))

/-- Slots are filled with alike values: an argument is for the same slot in both runs or misplaced in
both, as only its name and its position decide that. -/
lemma MixinCall.fillSlots_inStep {call call' : MixinCall} (hcall : call'.toSource = call.toSource)
    {params params' : List Parameter}
    (hparams : List.Forall₂ (Parameter.Alike (L.variation w)) params params')
    {args args' : List Argument} (hargs : ∀ a ∈ args, a.value.Conforms L.grammar .value)
    (hargsAlike : List.Forall₂ (Argument.Alike (L.variation w)) args args') (position : Nat)
    (named : Bool) {slots slots' : List (Option Node)}
    (hslots : List.Forall₂ (Option.Rel (Node.Alike (L.variation w))) slots slots') :
    L.InStep w (fun w' => List.Forall₂ (Option.Rel (Node.Alike (L.variation w'))))
      (MixinCall.fillSlots ev env scope call params position named args slots)
      (MixinCall.fillSlots ev' env' scope' call' params' position named args' slots') := by
  -- the arguments are alike in the world at the start, and that is enough for all later ones
  have key : ∀ w', w ≤ w' → ∀ position named slots slots',
      List.Forall₂ (Option.Rel (Node.Alike (L.variation w'))) slots slots' →
      L.InStep w' (fun w' => List.Forall₂ (Option.Rel (Node.Alike (L.variation w'))))
        (MixinCall.fillSlots ev env scope call params position named args slots)
        (MixinCall.fillSlots ev' env' scope' call' params' position named args' slots') := by
    clear hslots
    induction hargsAlike with
    | nil => exact fun w' _ position named slots slots' hslots => .pure hslots
    | @cons arg arg' rest rest' harg _ ih =>
      intro w' hw' position named slots slots' hslots
      rw [MixinCall.fillSlots, MixinCall.fillSlots, MixinCall.slot_alike hcall hparams harg, harg.name?]
      refine (Comparison.InStep.liftExcept (R := fun _ => Eq) (concurs_rfl _)).bind ?_
      rintro w₁ hw₁ slot _ rfl
      have hw := le_trans hw' hw₁
      have hlater := L.variation_mono hw
      refine (hev.node (henv.mono hw) hscope (halike.mono hlater) (hargs arg List.mem_cons_self)
        (harg.value.mono hlater)).bind fun w₂ hw₂ value value' hvalue => ?_
      refine ih (fun a ha => hargs a (List.mem_cons_of_mem arg ha)) w₂ (le_trans hw hw₂) _ _ _ _ ?_
      refine forall₂_set (hslots.imp fun _ _ hslot => ?_) (.some hvalue) slot
      exact Lockstep.lasting_slot (le_trans hw₁ hw₂) hslot
  exact key w (le_refl w) position named slots slots' hslots

/-- The value of a parameter. -/
lemma MixinCall.parameterValue_inStep {call call' : MixinCall} (hcall : call'.toSource = call.toSource)
    {p p' : Parameter} (hp : ∀ d, p.default? = some d → d.Conforms L.grammar .value)
    (hpAlike : p.Alike (L.variation w) p') {slot slot' : Option Node}
    (hslot : Option.Rel (Node.Alike (L.variation w)) slot slot') :
    L.InStep w (fun w' => Node.Alike (L.variation w'))
      (MixinCall.parameterValue ev env scope call p slot)
      (MixinCall.parameterValue ev' env' scope' call' p' slot') := by
  cases hslot with
  | some hvalue => exact .pure hvalue
  | none =>
    rw [MixinCall.parameterValue, MixinCall.parameterValue, hpAlike.name, hcall]
    cases hpAlike with
    | required => exact .throw _
    | optional h => exact hev.node henv hscope halike (hp _ rfl) h

/-- Arguments are bound to parameters. The counts are the same, so both calls have too many arguments or
neither; then the slots are filled and each parameter gets a value of its own. -/
lemma MixinCall.bind_inStep {call call' : MixinCall} (hcall : call'.toSource = call.toSource)
    {params params' : List Parameter}
    (hparams : ∀ p ∈ params, ∀ d, p.default? = some d → d.Conforms L.grammar .value)
    (hparamsAlike : List.Forall₂ (Parameter.Alike (L.variation w)) params params')
    {args args' : List Argument} (hargs : ∀ a ∈ args, a.value.Conforms L.grammar .value)
    (hargsAlike : List.Forall₂ (Argument.Alike (L.variation w)) args args') :
    L.InStep w (fun w' => List.Forall₂ (Node.Alike (L.variation w')))
      (MixinCall.bind ev env scope call params args)
      (MixinCall.bind ev' env' scope' call' params' args') := by
  unfold MixinCall.bind
  dsimp only
  rw [← hparamsAlike.length_eq, ← hargsAlike.length_eq, hcall]
  split
  · exact .bind (R := fun _ _ _ => False) (.throw _) fun _ _ _ _ h => h.elim
  · have hempty : List.Forall₂ (Option.Rel (Node.Alike (L.variation w)))
        (List.replicate params.length none) (List.replicate params.length none) :=
      List.forall₂_same.mpr fun slot hslot => by
        rw [List.eq_of_mem_replicate hslot]
        exact .none
    refine (MixinCall.fillSlots_inStep hev henv hscope halike hcall hparamsAlike hargs hargsAlike 0
      false hempty).bind fun w₁ hw₁ slots slots' hslots => ?_
    refine .mapM (fun _ _ hw _ _ h => h.mono (L.variation_mono hw))
      (forall₂_zip hparamsAlike hslots) ?_
    intro w₂ hw₂ entry hentry entry' halikes
    have hlater := L.variation_mono (le_trans hw₁ hw₂)
    refine (MixinCall.parameterValue_inStep hev (henv.mono (le_trans hw₁ hw₂)) hscope
      (halike.mono hlater) hcall (hparams entry.1 (List.of_mem_zip hentry).1)
      (halikes.1.imp fun _ _ _ h => h.mono hlater) (Lockstep.lasting_slot hw₂ halikes.2)).bind ?_
    intro w₃ _ value value' hvalue
    rw [halikes.1.name]
    exact .pure (.declaration hvalue)

/-- The parameters of a block are bound in a frame, which has stamps that belong together; a block without
parameter list is entered as it is. -/
lemma MixinCall.enterParams_inStep {call call' : MixinCall} (hcall : call'.toSource = call.toSource)
    {args args' : List Argument} (hargs : ∀ a ∈ args, a.value.Conforms L.grammar .value)
    (hargsAlike : List.Forall₂ (Argument.Alike (L.variation w)) args args') {b b' : Block}
    (hb : b.Conforms L.grammar) (hbAlike : b.Alike (L.variation w) b') {bodyScope bodyScope' : Scope}
    (hbody : Scope.Alike (L.variation w) bodyScope bodyScope') :
    L.InStep w (fun w' => Scope.Alike (L.variation w'))
      (MixinCall.enterParams ev env scope call args b bodyScope)
      (MixinCall.enterParams ev' env' scope' call' args' b' bodyScope') := by
  unfold MixinCall.enterParams
  have hboth := hbAlike.params
  cases hparams : b.kind.params? with
  | none =>
    rw [hparams] at hboth
    generalize b'.kind.params? = params' at hboth
    cases hboth
    exact .pure hbody
  | some params =>
    rw [hparams] at hboth
    generalize b'.kind.params? = params' at hboth
    cases hboth with
    | some hparamsAlike =>
      refine (MixinCall.bind_inStep hev henv hscope halike hcall (fun p hp d => hb.of_default hparams hp)
        hparamsAlike hargs hargsAlike).bind fun w₁ hw₁ bound bound' hbound => ?_
      refine (MixinCall.argumentFrame_inStep hbound).bind fun w₂ hw₂ frame frame' hframe => .pure ?_
      exact .cons hframe (hbody.mono (L.variation_mono (le_trans hw₁ hw₂)))

/-- The blocks around a definition are entered from the outside inwards, so that each finds alike scopes.
-/
lemma MixinCall.enterEnclosing_inStep {call call' : MixinCall} (hcall : call'.toSource = call.toSource)
    {enclosing enclosing' : List Block} (henclosing : ∀ e ∈ enclosing, e.Conforms L.grammar)
    (henclosingAlike : Scope.Alike (L.variation w) enclosing enclosing')
    {bodyScope bodyScope' : Scope} (hbody : Scope.Alike (L.variation w) bodyScope bodyScope') :
    L.InStep w (fun w' => Scope.Alike (L.variation w'))
      (MixinCall.enterEnclosing ev env scope call enclosing bodyScope)
      (MixinCall.enterEnclosing ev' env' scope' call' enclosing' bodyScope') := by
  induction enclosing generalizing w enclosing' bodyScope bodyScope' with
  | nil =>
    cases henclosingAlike
    exact .pure hbody
  | cons b rest ih =>
    obtain ⟨b', rest', hb, hrest, rfl⟩ := List.forall₂_cons_left_iff.mp henclosingAlike
    rw [MixinCall.enterEnclosing, MixinCall.enterEnclosing]
    refine (MixinCall.enterParams_inStep hev henv hscope halike hcall (by simp) .nil
      (henclosing b List.mem_cons_self) hb hbody).bind fun w₁ hw₁ inner inner' hinner => ?_
    have hlater := L.variation_mono hw₁
    exact ih (henv.mono hw₁) (halike.mono hlater)
      (fun e he => henclosing e (List.mem_cons_of_mem b he)) (Scope.Alike.mono hrest hlater)
      (.cons (hb.mono hlater) hinner)

/-- The rules of one block that a call names: the closures, the blocks around it and its parameters make
alike scopes for its body. -/
lemma MixinCall.expandMatch_inStep {call call' : MixinCall} (hcall : call'.toSource = call.toSource)
    (hargs : ∀ a ∈ call.args, a.value.Conforms L.grammar .value)
    (hargsAlike : List.Forall₂ (Argument.Alike (L.variation w)) call.args call'.args)
    {found found' : Match} (hfound : found.All (Block.Conforms L.grammar))
    (hmatch : found.Alike (L.variation w) found') :
    L.InStep w (fun w' => RulesAlike (L.variation w'))
      (MixinCall.expandMatch ev env scope call found)
      (MixinCall.expandMatch ev' env' scope' call' found') := by
  have hbody : Scope.Conforms L.grammar (found.block.captures ++ scope) :=
    hfound.block.captures.append hscope
  have hbodyAlike : Scope.Alike (L.variation w) (found.block.captures ++ scope)
      (found'.block.captures ++ scope') :=
    List.rel_append hmatch.block.captures halike
  unfold MixinCall.expandMatch
  refine (MixinCall.enterEnclosing_inStep hev henv hscope halike hcall hfound.enclosing
    hmatch.enclosing hbodyAlike).bind_ensures
    (MixinCall.enterEnclosing_respects hev.respects hscope call hfound.enclosing hbody) ?_
  intro w₁ hw₁ outer outer' houterAlike houter
  have hlater := L.variation_mono hw₁
  have hblock := hmatch.block.mono hlater
  refine (MixinCall.enterParams_inStep hev (henv.mono hw₁) hscope (halike.mono hlater) hcall hargs
    (hargsAlike.imp fun _ _ ha => ha.imp fun h => h.mono hlater) hfound.block hblock
    houterAlike).bind_ensures
    (MixinCall.enterParams_respects hev.respects hscope call hargs hfound.block houter) ?_
  intro w₂ hw₂ inner inner' hinnerAlike hinner
  refine (hev.block (henv.mono (le_trans hw₁ hw₂)) hinner hinnerAlike hfound.block
    (hblock.mono (L.variation_mono hw₂))).bind fun w₃ _ b b' hb => .pure ?_
  exact hb.rules

/-- The rules that a mixin call stands for: alike matches in the same order, each expanded behind the
guard. -/
lemma MixinCall.evaluateWith_inStep {call call' : MixinCall}
    (hcall : (Node.mixin call).Conforms L.grammar .rule)
    (hcallAlike : (Node.mixin call).Alike (L.variation w) (.mixin call')) :
    L.InStep w (fun w' => RulesAlike (L.variation w')) (call.evaluateWith ev env scope)
      (call'.evaluateWith ev' env' scope') := by
  have hsource : call'.toSource = call.toSource := hcallAlike.toSource (L.hidden w) hcall nofun
  have hargs : ∀ a ∈ call.args, a.value.Conforms L.grammar .value := fun a ha =>
    hcall.of_mem_values (List.mem_map_of_mem ha)
  cases hcallAlike with
  | leaf hleaf => cases hleaf
  | @mixin selector args args' hargsAlike =>
    have hempty : args'.isEmpty = args.isEmpty := by cases hargsAlike <;> rfl
    unfold MixinCall.evaluateWith
    rw [hempty, hsource]
    refine (resolve_inStep ⟨.rule, .inr hcall.allowed⟩ _ halike).bind_ensures
      (Ensures.liftState (E := fun _ => True) (resolve_conforms hscope selector _)) ?_
    intro w₁ hw₁ found found' hfound hconforms
    refine Comparison.InStep.bind (R := fun w' => List.Forall₂ (RulesAlike (L.variation w'))) ?_
      fun w₂ _ bodies bodies' h => .pure (.flatten h)
    refine .mapM (fun _ _ hw _ _ h => RulesAlike.mono h (L.variation_mono hw)) hfound ?_
    intro w₂ hw₂ f hf f' hff'
    have hw := le_trans hw₁ hw₂
    have hlater := L.variation_mono hw
    have henv₂ := henv.mono hw
    exact L.guarded henv₂ (MixinCall.expandMatch_inStep hev henv₂.deeper hscope (halike.mono hlater)
      hsource hargs (hargsAlike.imp fun _ _ ha => ha.imp fun h => h.mono hlater) (hconforms f hf)
      (hff'.mono (L.variation_mono hw₂)))

/-! ## The rules for blocks

Here the order of rules and additions among them show. Calls keep their places, so they are expanded in
the same order. The other rules are evaluated after that, in the order in which each tree has them. -/

/-- The loop that expands calls. It is taken from call to call, since exchanges keep to the rules
between two calls and the second run passes over what was added. -/
lemma Block.expandCallsFrom_inStep {frame frame' : Block} {done done' rest rest' : List Node}
    (hframe : frame.Conforms L.grammar) (hrules : frame.rules = done ++ rest)
    (hframes : frame.Alike (L.variation w) frame') (hdone : RulesAlike (L.variation w) done done')
    (hrest : RulesAlike (L.variation w) rest rest') :
    L.InStep w (fun w' => Block.Alike (L.variation w'))
      (Block.expandCallsFrom ev env scope frame done rest)
      (Block.expandCallsFrom ev' env' scope' frame' done' rest') := by
  -- rules between two calls may have changed places, so the loop is taken from call to call
  induction hlength : rest.length using Nat.strongRecOn
    generalizing w frame frame' done done' rest rest' with
  | ind length ih =>
    cases hfirst : rest.find? fun r => r.shape.isMixin with
    | none =>
      have hno : ∀ r ∈ rest, r.shape.isMixin = false := by simpa using hfirst
      have hno' : ∀ r ∈ rest', r.shape.isMixin = false := RulesAlike.isMixin_eq_false hrest hno
      rw [Block.expandCallsFrom_of_no_calls ev env scope frame done hno,
        Block.expandCallsFrom_of_no_calls ev' env' scope' frame' done' hno']
      exact .pure hframes
    | some rule =>
      obtain ⟨hmixin, before, after, rfl, hbefore⟩ := List.find?_eq_some_iff_append.mp hfirst
      cases rule with
      | mixin call =>
        -- a call keeps its place, and so it divides both lists
        obtain ⟨before', rule', after', rfl, hbefores, hcallAlike, hafters⟩ :=
          hrest.of_append_cons (Variation.not_exchanges_mixin call)
        obtain ⟨call', rfl⟩ : ∃ call', rule' = .mixin call' := by
          cases hcallAlike with
          | leaf hleaf => cases hleaf
          | mixin _ => exact ⟨_, rfl⟩
        have hno : ∀ r ∈ before, r.shape.isMixin = false := by simpa using hbefore
        rw [Block.expandCallsFrom_append hno,
          Block.expandCallsFrom_append (RulesAlike.isMixin_eq_false hbefores hno),
          Block.expandCallsFrom, Block.expandCallsFrom]
        rw [← List.append_assoc] at hrules
        have hcall : (Node.mixin call).Conforms L.grammar .rule :=
          hframe.of_mem_rules (by rw [hrules]; simp)
        have hargs : ∀ a ∈ call.args, a.value.Conforms L.grammar .value := fun a ha =>
          hcall.of_mem_values (List.mem_map_of_mem ha)
        have hinside : Scope.Conforms L.grammar (frame :: scope) := hscope.cons hframe
        refine (MixinCall.evaluateWith_inStep hev henv hinside (.cons hframes halike) hcall
          hcallAlike).bind_ensures (MixinCall.evaluateWith_respects hev.respects hinside hargs) ?_
        intro w₁ hw₁ expanded expanded' hexpanded hexpandedConforms
        have hlater₁ := L.variation_mono hw₁
        have hdone₁ := (RulesAlike.mono (hdone.append hbefores) hlater₁).append hexpanded
        have hafters₁ := RulesAlike.mono hafters hlater₁
        refine (Block.rebuilt_inStep (hframes.mono hlater₁) (hdone₁.append hafters₁)).bind_ensures
          (Ensures.liftState (E := fun _ => True) (frame.rebuilt_spec _)) ?_
        rintro w₂ hw₂ next next' hnext ⟨hkind, -, hnextRules⟩
        have hlater₂ := L.variation_mono hw₂
        have hnextConforms := hframe.spliced hrules (fun r hr => (hexpandedConforms r hr).1) hkind
          hnextRules
        have hw := le_trans hw₁ hw₂
        refine ih after.length ?_ (henv.mono hw) (halike.mono (L.variation_mono hw)) hnextConforms
          hnextRules hnext (RulesAlike.mono hdone₁ hlater₂) (RulesAlike.mono hafters₁ hlater₂) rfl
        rw [← hlength, List.length_append, List.length_cons]
        omega
      | _ => cases hmixin

/-- The calls among the rules of a block are expanded. -/
lemma Block.expandCalls_inStep {b b' : Block} (hb : b.Conforms L.grammar)
    (hblocks : b.Alike (L.variation w) b') :
    L.InStep w (fun w' => Block.Alike (L.variation w')) (b.expandCalls ev env scope)
      (b'.expandCalls ev' env' scope') :=
  Block.expandCallsFrom_inStep hev henv hscope halike hb rfl hblocks (.of_forall₂ .nil) hblocks.rules

/-- A rule of a block. A definition captures its scope, which is alike in both runs; any other rule is
evaluated as a node. -/
lemma Block.evaluateRule_inStep {r r' : Node} (hr : r.Conforms L.grammar .rule)
    (hrule : r.Alike (L.variation w) r') :
    L.InStep w (fun w' => Node.Alike (L.variation w')) (Block.evaluateRule ev env scope r)
      (Block.evaluateRule ev' env' scope' r') := by
  have hnode := hev.node henv hscope halike hr hrule
  cases hrule with
  | block hb =>
    rw [Block.evaluateRule, Block.evaluateRule, hb.isDefinition]
    split
    · exact (Block.capture_inStep hb halike).bind fun _ _ c c' hc => .pure (.block hc)
    · exact hnode
  | @leaf r hleaf =>
    cases r with
    | block b => cases hleaf
    | _ => exact hnode
  | _ => exact hnode

omit hev henv hscope halike in
/-- A definition that was added captures its surroundings and stays one that may be added. -/
lemma Block.evaluateRule_rests {V : Variation} {r : Node} (h : V.Added r) (ev : Evaluator) (env : Env)
    (scope : Scope) : Rests V.Added (Block.evaluateRule ev env scope r) := by
  obtain ⟨⟨stamp, selectors, rules, kind⟩, rfl, hdef, hadded⟩ := h
  intro m
  rw [Block.evaluateRule, if_pos hdef]
  cases kind with
  | definition params =>
    exact ⟨.block ⟨m.fresh.1, selectors, rules, .captured params scope⟩, m.fresh.2, rfl,
      ⟨_, rfl, rfl, hadded⟩, .single rfl⟩
  | captured params closure => exact ⟨_, m, rfl, ⟨_, rfl, rfl, hadded⟩, .refl⟩
  | root => cases hdef
  | plain => cases hdef

/-- The rules for blocks: calls are expanded, rules are evaluated in their order or in another one, and a
block is built from the results. -/
lemma Block.evaluateWith_inStep {b b' : Block} (hb : b.Conforms L.grammar)
    (hblocks : b.Alike (L.variation w) b') :
    L.InStep w (fun w' => Block.Alike (L.variation w')) (b.evaluateWith ev env scope)
      (b'.evaluateWith ev' env' scope') := by
  unfold Block.evaluateWith
  refine (Block.expandCalls_inStep hev henv hscope halike hb hblocks).bind_ensures
    (Block.expandCalls_respects hev.respects hscope hb) ?_
  intro w₁ hw₁ frame frame' hframes hframe
  have hinside : Scope.Conforms L.grammar (frame :: scope) := hscope.cons hframe.conforms
  have hinsideAlike : Scope.Alike (L.variation w₁) (frame :: scope) (frame' :: scope') :=
    .cons hframes (halike.mono (L.variation_mono hw₁))
  refine Comparison.InStep.bind (R := fun w' => RulesAlike (L.variation w')) ?_
    fun w₂ hw₂ rules rules' hrules => Block.rebuilt_inStep (hframes.mono (L.variation_mono hw₂)) hrules
  have hmapped : L.InStep w₁
      (fun w' => ShuffledBy (L.variation w₁).Exchanges (Node.Alike (L.variation w'))
        (L.variation w₁).Added)
      (frame.rules.mapM (Block.evaluateRule ev env (frame :: scope)))
      (frame'.rules.mapM (Block.evaluateRule ev' env' (frame' :: scope'))) := by
    refine L.mapRules (P := fun r v => r.role ≠ .other → v.role = r.role)
      (fun _ _ hw _ _ h => h.mono (L.variation_mono hw)) hframes.rules ?_ ?_ ?_ ?_
    · intro w₂ hw₂ r hr r' hrr'
      exact Block.evaluateRule_inStep hev (henv.mono (le_trans hw₁ hw₂)) hinside
        (hinsideAlike.mono (L.variation_mono hw₂)) (hframe.conforms.of_mem_rules hr) hrr'
    · -- what is evaluated keeps its role
      intro r hr
      refine ⟨fun hv => ?_, fun _ => trivial⟩
      exact ((Block.evaluateRule_respects hev.respects hinside (hframe.conforms.of_mem_rules hr)
        (hframe.isMixin_eq_false hr)).value hv).2.2
    · intro r s hrs v u hv hu
      obtain ⟨hr, hs⟩ := hrs.independent.role_ne_other
      rw [Variation.Exchanges, hv hr, hu hs]
      exact hrs
    · exact fun r' hr' => Block.evaluateRule_rests hr' ev' env' _
  exact hmapped.imp fun w' hw' _ _ h => h.imp (fun _ _ hrs => (L.variation_mono hw').exchanges hrs)
    (fun _ _ _ hr => hr) fun _ hr => hr.mono (L.variation_mono hw')

end rules

/-- **The evaluator is in step with itself**, with as much fuel or with more, if lack of fuel is
excused. -/
theorem evaluator_inStep (L : Lockstep) {fuel fuel' : Nat} (hfuel : L.Suffices fuel fuel') :
    (evaluator fuel).InStep L (evaluator fuel') := by
  induction fuel generalizing fuel' with
  | zero =>
    refine ⟨evaluator_respects L.grammar 0, fun _ _ _ _ _ => hfuel.zero ?_,
      fun _ _ _ _ _ => hfuel.zero ?_⟩
    · rintro rfl
      rfl
    · rintro rfl
      rfl
  | succ fuel ih =>
    obtain ⟨k, rfl, hk⟩ := hfuel.succ
    exact ⟨evaluator_respects L.grammar (fuel + 1),
      fun henv hscope halike hn hnode => Node.evaluateWith_inStep (ih hk) henv hscope halike hn hnode,
      fun henv hscope halike hb hblocks =>
        Block.evaluateWith_inStep (ih hk) henv hscope halike hb hblocks⟩

end Stylesheet
