import Stylesheet.Compiler
import Stylesheet.Proofs.Transparency

/-!
# Trees from outside

A tree that comes from outside has no stamps yet: all of them are zero. Before it is compiled, each
block in it gets one.

* Stamping draws stamps and does nothing else to the memory (`stamped_draws`), and in the tree it changes
  nothing but the stamps (`stamped_alike`).
* **Where selectors are told apart, the stamps decide nothing**: a tree compiles to what it would
  compile to without stamps, as if all its blocks were one (`Compiler.compileTree_eq_of_toldApart`).
-/

namespace Stylesheet

variable {α β : Type}

/-! ## Stamping a tree

Stamping goes through the whole tree, also through values and defaults. It is compared with the tree
before, by the relation that allows any stamps. -/

/-- Draws stamps and does nothing else to the memory. -/
def Draws (x : StateM Memory α) : Prop :=
  ∀ m : Memory, m.Drawn (x.run m).2

namespace Draws

variable {x : StateM Memory α} {k : α → StateM Memory β}

/-- A value at hand. -/
lemma pure (a : α) : Draws (pure a) :=
  fun _ => .refl

/-- One step after another. -/
lemma bind (hx : Draws x) (hk : ∀ a, Draws (k a)) : Draws (x >>= k) :=
  fun m => (hx m).trans (hk _ _)

/-- A new stamp. -/
lemma freshStamp : Draws freshStamp :=
  fun _ => .single rfl

/-- Elements from left to right. -/
lemma mapM {f : α → StateM Memory β} {l : List α} (h : ∀ a ∈ l, Draws (f a)) : Draws (l.mapM f) := by
  induction l with
  | nil => exact pure []
  | cons a l ih =>
    rw [List.mapM_cons]
    refine (h a List.mem_cons_self).bind fun _ => ?_
    exact (ih fun b hb => h b (List.mem_cons_of_mem a hb)).bind fun _ => pure _

/-- Another run can wait for it. -/
lemma rests (hx : Draws x) {P : α → Prop} (hP : Always x P) : Rests P (liftM x : EvalM α) :=
  fun m => ⟨_, _, rfl, hP m, hx m⟩

/-- What a new stamp leaves true, all of them do. -/
lemma keeps (hx : Draws x) {P : Memory → Prop} (hP : ∀ m, P m → P m.fresh.2) {m : Memory} (hm : P m) :
    P (x.run m).2 := by
  have hdrawn := hx m
  generalize (x.run m).2 = n at hdrawn ⊢
  induction hdrawn with
  | refl => exact hm
  | tail _ hstep ih =>
    rw [hstep]
    exact hP _ ih

end Draws

/-- **Stamping looks nothing up.** -/
theorem stamped_draws : (∀ n : Node, Draws n.stamped) ∧ (∀ l, Draws (Argument.stampedAll l)) ∧
    (∀ b : Block, Draws b.stamped) ∧ (∀ kind : BlockKind, Draws kind.stamped) ∧
    (∀ l, Draws (Parameter.stampedAll l)) ∧ ∀ l, Draws (Node.stampedAll l) := by
  apply Node.stamped.mutual_induct
  -- each function stamps the parts one after the other and puts them together again
  all_goals
    intros
    simp only [Node.stamped, Argument.stampedAll, Block.stamped, BlockKind.stamped,
      Parameter.stampedAll, Node.stampedAll]
    repeat first | assumption | exact .freshStamp | exact .pure _ | refine .bind ?_ fun _ => ?_

/-- Trees that differ in any way in their stamps, and in nothing else. -/
abbrev Variation.anyStamps : Variation :=
  .stampsOnly fun _ _ => True

/-- A stamped list of nodes. -/
lemma Node.stampedAll_alike {l : List Node} (h : ∀ n ∈ l, Always n.stamped (n.Alike .anyStamps)) :
    Always (Node.stampedAll l) (List.Forall₂ (Node.Alike .anyStamps) l) := by
  induction l with
  | nil => exact .pure .nil
  | cons n l ih =>
    rw [Node.stampedAll]
    refine (h n List.mem_cons_self).bind fun n' hn => ?_
    exact (ih fun k hk => h k (List.mem_cons_of_mem n hk)).bind fun l' hl => .pure (.cons hn hl)

/-- A stamped list of arguments. -/
lemma Argument.stampedAll_alike {l : List Argument}
    (h : ∀ a ∈ l, Always a.value.stamped (a.value.Alike .anyStamps)) :
    Always (Argument.stampedAll l) (List.Forall₂ (Argument.Alike .anyStamps) l) := by
  induction l with
  | nil => exact .pure .nil
  | cons a l ih =>
    have hrest := ih fun c hc => h c (List.mem_cons_of_mem a hc)
    have ha := h a List.mem_cons_self
    cases a with
    | positional value =>
      rw [Argument.stampedAll]
      exact ha.bind fun _ hvalue => hrest.bind fun _ hl => .pure (.cons (.positional hvalue) hl)
    | named name value =>
      rw [Argument.stampedAll]
      exact ha.bind fun _ hvalue => hrest.bind fun _ hl => .pure (.cons (.named hvalue) hl)

/-- A stamped list of parameters. -/
lemma Parameter.stampedAll_alike {l : List Parameter}
    (h : ∀ p ∈ l, ∀ d, p.default? = some d → Always d.stamped (d.Alike .anyStamps)) :
    Always (Parameter.stampedAll l) (List.Forall₂ (Parameter.Alike .anyStamps) l) := by
  induction l with
  | nil => exact .pure .nil
  | cons p l ih =>
    have hrest := ih fun q hq => h q (List.mem_cons_of_mem p hq)
    cases p with
    | required name =>
      rw [Parameter.stampedAll]
      exact hrest.bind fun _ hl => .pure (.cons .required hl)
    | optional name default =>
      rw [Parameter.stampedAll]
      refine (h _ List.mem_cons_self default rfl).bind fun _ hdefault => ?_
      exact hrest.bind fun _ hl => .pure (.cons (.optional hdefault) hl)

/-- A stamped kind; the closure is left as it is. -/
lemma BlockKind.stamped_alike {kind : BlockKind}
    (h : ∀ p ∈ kind.params?.getD [], ∀ d, p.default? = some d →
      Always d.stamped (d.Alike .anyStamps)) :
    Always kind.stamped (kind.Alike .anyStamps) := by
  cases kind with
  | root => exact .pure .root
  | plain => exact .pure .plain
  | definition params =>
    rw [BlockKind.stamped]
    exact (Parameter.stampedAll_alike h).bind fun _ hparams => .pure (.definition hparams)
  | captured params closure =>
    rw [BlockKind.stamped]
    refine (Parameter.stampedAll_alike h).bind fun _ hparams => .pure (.captured hparams ?_)
    exact Scope.alike_refl (fun _ => trivial) closure

/-- **Stamping a tree changes nothing but the stamps.** By induction over nodes and blocks at once, along
the functions that stamp the parts of a node. -/
theorem stamped_alike : (∀ n : Node, Always n.stamped (n.Alike .anyStamps)) ∧
    ∀ b : Block, Always b.stamped (b.Alike .anyStamps) := by
  refine Node.joint_induction ?_ ?_
  · intro n hvalues hblock
    cases n with
    | expression items =>
      rw [Node.stamped]
      exact (Node.stampedAll_alike hvalues).bind fun _ h => .pure (.expression h)
    | list items =>
      rw [Node.stamped]
      exact (Node.stampedAll_alike hvalues).bind fun _ h => .pure (.list h)
    | call name args =>
      rw [Node.stamped]
      exact (Node.stampedAll_alike hvalues).bind fun _ h => .pure (.call h)
    | operation op left right =>
      rw [Node.stamped]
      refine (hvalues left (by simp [Node.values])).bind fun _ hleft => ?_
      exact (hvalues right (by simp [Node.values])).bind fun _ hright => .pure (.operation hleft hright)
    | declaration d =>
      obtain ⟨name, value, important⟩ := d
      rw [Node.stamped]
      exact (hvalues value List.mem_cons_self).bind fun _ h => .pure (.declaration h)
    | mixin call =>
      obtain ⟨selector, args⟩ := call
      rw [Node.stamped]
      refine (Argument.stampedAll_alike fun a ha => ?_).bind fun _ h => .pure (.mixin h)
      exact hvalues a.value (List.mem_map_of_mem ha)
    | block b =>
      rw [Node.stamped]
      exact (hblock b rfl).bind fun _ h => .pure (.block h)
    | _ => exact .pure (.leaf rfl)
  · intro b hrules hdefaults _
    have hkind : Always b.kind.stamped (b.kind.Alike .anyStamps) :=
      BlockKind.stamped_alike fun p hp d hd => hdefaults d (List.mem_filterMap.mpr ⟨p, hp, hd⟩)
    have hstamped := Node.stampedAll_alike hrules
    obtain ⟨stamp, selectors, rules, kind⟩ := b
    rw [Block.stamped]
    refine (Always.trivial freshStamp).bind fun _ _ => hstamped.bind fun _ hl => ?_
    exact hkind.bind fun _ hk => .pure (.intro trivial (.refl rules) (.of_forall₂ hl) hk)

/-! ## Compiling

Compiling stamps the trees and then renders the root. Where selectors are told apart both parts can be
forgotten: neither the stamps nor the memory that is left by drawing them matters. -/

/-- Trees that imports stand for, under the same paths, that are alike. -/
abbrev ImportsAlike (V : Variation) : List (String × Block) → List (String × Block) → Prop :=
  List.Forall₂ fun entry entry' => entry'.1 = entry.1 ∧ entry.2.Alike V entry'.2

/-- A path stands for alike trees. -/
lemma ImportsAlike.lookup {V : Variation} {imports imports' : List (String × Block)}
    (h : ImportsAlike V imports imports') (path : String) :
    Option.Rel (Block.Alike V) (imports.lookup path) (imports'.lookup path) := by
  induction h with
  | nil => exact .none
  | @cons entry entry' imports imports' hentry _ ih =>
    obtain ⟨key, tree⟩ := entry
    obtain ⟨key', tree'⟩ := entry'
    obtain ⟨rfl, htree⟩ := hentry
    rw [List.lookup_cons, List.lookup_cons]
    cases path == key' with
    | true => exact .some htree
    | false => exact ih

/-- Compilers of one setting whose imports stand for alike trees. -/
lemma Compiler.environments_of_alike {L : Lockstep} {w : L.World} {imports imports' : List (String × Block)}
    (h : ImportsAlike (L.variation w) imports imports') (o : Options) :
    L.Environments w (Compiler.env ⟨o, imports⟩) (Compiler.env ⟨o, imports'⟩) :=
  ⟨rfl, .inl rfl, .inl rfl, h.lookup⟩

/-- A compiler serves trees of the grammar if all its imports stand for such trees. -/
lemma Compiler.env_serves {g : Grammar} {imports : List (String × Block)}
    (h : ∀ path tree, (path, tree) ∈ imports → tree.Conforms g) (o : Options) :
    (Compiler.env ⟨o, imports⟩).Serves g := by
  intro path tree htree
  have hlookup : imports.lookup path = some tree := htree
  obtain ⟨before, after, hsplit, -⟩ := List.lookup_eq_some_iff.mp hlookup
  exact h path tree (by simp [hsplit])

/-- The trees of a compiler are stamped one after the other. -/
lemma Compiler.stamped_alike (o : Options) (imports : List (String × Block)) :
    Always (Compiler.stamped ⟨o, imports⟩) fun c =>
      c.options = o ∧ ImportsAlike .anyStamps imports c.imports := by
  have hentries : Always (imports.mapM fun entry => do return (entry.1, ← entry.2.stamped))
      (ImportsAlike .anyStamps imports) := by
    induction imports with
    | nil => exact .pure .nil
    | cons entry imports ih =>
      rw [List.mapM_cons, bind_assoc]
      refine (Stylesheet.stamped_alike.2 entry.2).bind fun tree htree => ?_
      rw [pure_bind]
      exact ih.bind fun _ hl => .pure (.cons ⟨rfl, htree⟩ hl)
  exact hentries.bind fun _ hl => .pure ⟨rfl, hl⟩

/-- Stamping them looks nothing up. -/
lemma Compiler.stamped_draws (c : Compiler) : Draws c.stamped := by
  have hentries : Draws (c.imports.mapM fun entry => do return (entry.1, ← entry.2.stamped)) :=
    .mapM fun entry _ => (Stylesheet.stamped_draws.2.2.1 entry.2).bind fun _ => .pure _
  exact hentries.bind fun _ => .pure _

section toldApart

variable {F : Selector → Prop} (hapart : Selector.ToldApart F)
  (htail : ∀ s t, F s → s.tail? = some t → F t) {imports : List (String × Block)} {root : Block}
  (himports : ∀ path tree, (path, tree) ∈ imports → tree.Conforms (.lookingUp F))
  (hroot : root.Conforms (.lookingUp F))

include hapart htail himports hroot

/-- Trees that differ in stamps only compile to one text, from any two memories that hold selectors
in `F` only. -/
lemma Compiler.compileWithin_eq_of_toldApart {imports' : List (String × Block)} {root' : Block}
    (himportsAlike : ImportsAlike .anyStamps imports imports') (halike : root.Alike .anyStamps root')
    {m m' : Memory} (hm : m.Holds F) (hm' : m'.Holds F) (o : Options) (fuel : Nat) :
    (outcome (Compiler.compileWithin fuel ⟨o, imports'⟩ root') m').1 =
      (outcome (Compiler.compileWithin fuel ⟨o, imports⟩ root) m).1 := by
  let L := Lockstep.toldApart hapart htail Grammar.lookingUp_looksUp.mp False
  have hle : Variation.anyStamps.Le (L.variation ()) := Variation.stampsOnly_le_loose _ _
  have henv : L.Environments () (Compiler.env ⟨o, imports⟩) (Compiler.env ⟨o, imports'⟩) :=
    Compiler.environments_of_alike (himportsAlike.imp fun _ _ h => ⟨h.1, h.2.mono hle⟩) o
  exact (Block.render_inStep L (.inl rfl) henv (Compiler.env_serves himports o)
    (by simp [Scope.Conforms]) .nil [] hroot (halike.mono hle)).result_eq ⟨hm, hm'⟩
    fun _ _ hexcused => hexcused

/-- **Where selectors are told apart, the stamps decide nothing.** A tree from outside compiles as it
would without being stamped. -/
theorem Compiler.compileTree_eq_of_toldApart (o : Options) :
    Compiler.compileTree ⟨o, imports⟩ root =
      (outcome (Compiler.compile ⟨o, imports⟩ root) Memory.empty.fresh.2).1 := by
  let trees := (Compiler.stamped ⟨o, imports⟩).run Memory.empty
  let stamped := root.stamped.run trees.2
  obtain ⟨hoptions, hentries⟩ := Compiler.stamped_alike o imports Memory.empty
  have hcompiler : trees.1 = ⟨o, trees.1.imports⟩ := congrArg (Compiler.mk · _) hoptions
  have hfresh : ∀ m : Memory, m.Holds F → m.fresh.2.Holds F := fun _ hm => hm.fresh
  have htrees : trees.2.Holds F := (Compiler.stamped_draws _).keeps hfresh Memory.holds_empty
  have hstamped : stamped.2.Holds F := (Stylesheet.stamped_draws.2.2.1 root).keeps hfresh htrees
  change (outcome (trees.1.compile stamped.1) stamped.2).1 = _
  rw [hcompiler]
  exact Compiler.compileWithin_eq_of_toldApart hapart htail himports hroot hentries
    (Stylesheet.stamped_alike.2 root trees.2) Memory.holds_empty.fresh hstamped o defaultFuel

end toldApart

end Stylesheet
