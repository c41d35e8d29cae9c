import Stylesheet.Proofs.Agreement
import Stylesheet.Proofs.LockstepRendering
import Stylesheet.Proofs.Misreadings

/-!
# Where the memory goes unnoticed

Evaluations that share trees share the readings of their blocks, so an evaluation can start from a
memory that earlier ones have left. This file says when that shows.

* `Memory.Warmed F`: a memory after any series of searches, evaluations and renderings in which only
  selectors in `F` are looked up.
* **If the texts of the selectors in `F` tell them apart, the memory decides nothing**: every search
  finds what the selector names, and every rendering gives the same text from every such memory
  (`Memory.transparent_iff`).
* **If they do not, the memory decides**: some sequence of two searches in a new tree gives a wrong
  answer. Plain selectors are told apart (`Selector.toldApart_plain`), `a&b` and `ab` are not.
-/

namespace Stylesheet

/-! ## Trees in which only some selectors are looked up -/

/-- Trees in which only selectors in `F` are looked up. -/
def Grammar.lookingUp (F : Selector → Prop) : Grammar where
  allows _ shape :=
    match shape with
    | .accessor s => F s
    | .mixin s => F s
    | _ => True
  text _ := trivial
  number _ := trivial
  color _ := trivial
  declaration := trivial
  rule_of_value := id

/-- The selectors that may be looked up are those in `F`. -/
lemma Grammar.lookingUp_looksUp {F : Selector → Prop} {s : Selector} :
    (Grammar.lookingUp F).LooksUp s ↔ F s := by
  constructor
  · rintro ⟨_, h | h⟩ <;> exact h
  · intro h
    exact ⟨.rule, .inl h⟩

/-! ## Memories in use

A memory is used by searches, evaluations and renderings, in any order and for any trees that look up
selectors in `F` only. Each of them keeps it a memory of such selectors. -/

/-- The memory after a series of searches, evaluations and renderings, in which only selectors in `F`
are looked up. -/
inductive Memory.Warmed (F : Selector → Prop) : Memory → Prop
  | blank {m : Memory} (h : ∀ stamp text, m.reading? stamp text = none) : Memory.Warmed F m
  | fresh {m : Memory} (h : Memory.Warmed F m) : Memory.Warmed F m.fresh.2
  | find {m : Memory} (h : Memory.Warmed F m) (b : Block) {s : Selector} (hs : F s) :
      Memory.Warmed F ((b.find s).run m).2
  | node {m : Memory} (h : Memory.Warmed F m) (fuel : Nat) (env : Env) {scope : Scope} {p : Place}
      {n : Node} (hscope : Scope.Conforms (.lookingUp F) scope) (hn : n.Conforms (.lookingUp F) p) :
      Memory.Warmed F (outcome (n.evaluate fuel env scope) m).2
  | block {m : Memory} (h : Memory.Warmed F m) (fuel : Nat) (env : Env) {scope : Scope} {b : Block}
      (hscope : Scope.Conforms (.lookingUp F) scope) (hb : b.Conforms (.lookingUp F)) :
      Memory.Warmed F (outcome (b.evaluate fuel env scope) m).2
  | call {m : Memory} (h : Memory.Warmed F m) (fuel : Nat) (env : Env) {scope : Scope}
      {call : MixinCall} (hscope : Scope.Conforms (.lookingUp F) scope)
      (hcall : (Node.mixin call).Conforms (.lookingUp F) .rule) :
      Memory.Warmed F (outcome (call.evaluate fuel env scope) m).2
  | render {m : Memory} (h : Memory.Warmed F m) (fuel : Nat) {env : Env} {scope : Scope}
      (context : List Path) {b : Block} (henv : env.Serves (.lookingUp F))
      (hscope : Scope.Conforms (.lookingUp F) scope) (hb : b.Conforms (.lookingUp F)) :
      Memory.Warmed F (outcome (Block.render fuel env scope context b) m).2

section warmed

variable {F : Selector → Prop} (hapart : Selector.ToldApart F)
  (htail : ∀ s t, F s → s.tail? = some t → F t)

include hapart htail

/-- Step by step, a memory in use holds selectors in `F` only. -/
lemma Memory.Warmed.holds {m : Memory} (h : m.Warmed F) : m.Holds F := by
  let L := Lockstep.toldApart hapart htail Grammar.lookingUp_looksUp.mp False
  have hev : ∀ fuel, (evaluator fuel).InStep L (evaluator fuel) := fun _ => evaluator_inStep L (.inl rfl)
  induction h with
  | blank h => exact Memory.holds_of_blank h
  | fresh _ ih => exact ih.fresh
  | find _ b hs ih => exact (Block.find_settled hapart htail hs b _ ih).2
  | @node _ _ fuel env scope p n hscope hn ih =>
    exact ((hev fuel).node (Lockstep.environments_toldApart env) hscope scope.toldApart_refl hn
      (Lockstep.toldApart_refl.1 n)).holds ih
  | @block _ _ fuel env scope b hscope hb ih =>
    exact ((hev fuel).block (Lockstep.environments_toldApart env) hscope scope.toldApart_refl hb
      (Lockstep.toldApart_refl.2 b)).holds ih
  | @call _ _ fuel env scope call hscope hcall ih =>
    exact (MixinCall.evaluateWith_inStep (hev fuel) (Lockstep.environments_toldApart env) hscope
      scope.toldApart_refl hcall (Lockstep.toldApart_refl.1 (.mixin call))).holds ih
  | @render _ _ fuel env scope context b hserves hscope hb ih =>
    exact (Block.render_inStep L (.inl rfl) (Lockstep.environments_toldApart env) hserves hscope
      scope.toldApart_refl context hb (Lockstep.toldApart_refl.2 b)).holds ih

/-- From memories that hold selectors in `F`, rendering gives one text. -/
lemma Block.render_eq_of_holds {m m' : Memory} (hm : m.Holds F) (hm' : m'.Holds F) (fuel : Nat)
    {env : Env} (henv : env.Serves (.lookingUp F)) {scope : Scope}
    (hscope : Scope.Conforms (.lookingUp F) scope) (context : List Path) {b : Block}
    (hb : b.Conforms (.lookingUp F)) :
    (outcome (Block.render fuel env scope context b) m').1 =
      (outcome (Block.render fuel env scope context b) m).1 :=
  (Block.render_inStep (Lockstep.toldApart hapart htail Grammar.lookingUp_looksUp.mp False) (.inl rfl)
    (Lockstep.environments_toldApart env) henv hscope scope.toldApart_refl context hb
    (Lockstep.toldApart_refl.2 b)).result_eq ⟨hm, hm'⟩ fun _ _ hexcused => hexcused

end warmed

/-- **The memory goes unnoticed exactly where texts tell selectors apart.** If they do, every search
after any series of searches, evaluations and renderings finds what the selector names, and every
rendering gives the same text from all such memories. -/
theorem Memory.transparent_iff {F : Selector → Prop}
    (htail : ∀ s t, F s → s.tail? = some t → F t) :
    (Selector.Transparent F ↔ Selector.ToldApart F) ∧
    (Selector.ToldApart F → ∀ m : Memory, m.Warmed F →
      (∀ (b : Block) (s : Selector), F s → ((b.find s).run m).1 = b.search s.names) ∧
      ∀ m' : Memory, m'.Warmed F →
        ∀ (fuel : Nat) (env : Env) (scope : Scope) (context : List Path) (b : Block),
        env.Serves (.lookingUp F) → Scope.Conforms (.lookingUp F) scope →
        b.Conforms (.lookingUp F) →
        (outcome (Block.render fuel env scope context b) m').1 =
          (outcome (Block.render fuel env scope context b) m).1) := by
  refine ⟨⟨Selector.toldApart_of_transparent,
    fun hapart => Selector.transparent_of_toldApart hapart htail⟩, fun hapart m hm => ?_⟩
  have hholds := hm.holds hapart htail
  refine ⟨fun b s hs => (Block.find_settled hapart htail hs b m hholds).1, ?_⟩
  intro m' hm' fuel env scope context b henv hscope hb
  exact Block.render_eq_of_holds hapart htail hholds (hm'.holds hapart htail) fuel henv hscope
    context hb

/-- The memory does not go unnoticed everywhere: `a&b` and `ab` have one text. -/
theorem Selector.not_transparent_all : ¬Selector.Transparent fun _ => True := by
  intro h
  have hnames := Selector.toldApart_of_transparent h ⟨[⟨.descendant, "a"⟩, ⟨.parent, "b"⟩]⟩
    ⟨[⟨.descendant, "ab"⟩]⟩ trivial trivial (by decide)
  exact absurd hnames (by decide)

/-- A style sheet that calls a mixin inside another block. -/
def Block.namespaceSample : Block :=
  ⟨0, [], [
    .block ⟨1, [⟨[⟨.descendant, "#x"⟩]⟩], [
      .block ⟨2, [⟨[⟨.descendant, ".m"⟩]⟩], [.declaration (.plain "width" (.text "wide"))],
        .plain⟩], .plain⟩,
    .block ⟨3, [⟨[⟨.descendant, "a"⟩]⟩], [
      .mixin ⟨⟨[⟨.descendant, "#x"⟩, ⟨.descendant, ".m"⟩]⟩, []⟩], .plain⟩], .root⟩

/-- Only one selector is looked up in it, and that is plain. -/
lemma Block.namespaceSample_conforms :
    Block.namespaceSample.Conforms (.lookingUp Selector.Plain) := by
  have hplain : (⟨[⟨.descendant, "#x"⟩, ⟨.descendant, ".m"⟩]⟩ : Selector).Plain :=
    ⟨⟨"#x .m", by cbv⟩, by simp⟩
  refine .without_params rfl ?_
  simp only [namespaceSample, List.mem_cons, List.not_mem_nil, or_false, forall_eq_or_imp, forall_eq]
  constructor
  · refine .block trivial (.without_params rfl ?_)
    simp only [List.mem_singleton, forall_eq]
    refine .block trivial (.without_params rfl ?_)
    simp only [List.mem_singleton, forall_eq]
    exact .declaration trivial (.text _)
  · refine .block trivial (.without_params rfl ?_)
    simp only [List.mem_singleton, forall_eq]
    exact .intro hplain (by simp [Node.values]) (by simp)

/-- A memory that nothing was looked up in, and the one that a rendering leaves: both give the text. -/
theorem Memory.transparent_iff_namespaceSample :
    let m : Memory := ⟨Array.replicate 4 []⟩
    let warm := (outcome (Block.render 8 {} [] [] .namespaceSample) m).2
    (∀ s t : Selector, s.Plain → s.tail? = some t → t.Plain) ∧
    Selector.Transparent Selector.Plain ∧ m.Warmed Selector.Plain ∧ warm.Warmed Selector.Plain ∧
    warm.reading? 0 " #x .m" = some ⟨[⟨.descendant, "#x"⟩, ⟨.descendant, ".m"⟩]⟩ ∧
    (outcome (Block.render 8 {} [] [] .namespaceSample) warm).1 =
      .ok "#x .m \x7b\n  width: wide;\n\x7d\na \x7b\n  width: wide;\n\x7d\n" := by
  intro m warm
  have htail : ∀ s t : Selector, s.Plain → s.tail? = some t → t.Plain :=
    fun _ _ hs ht => hs.tail ht
  have hcold : m.Warmed Selector.Plain := .blank (by simp [m])
  have hserves : ({} : Env).Serves (.lookingUp Selector.Plain) := by
    intro path tree htree
    cases htree
  have hscope : Scope.Conforms (.lookingUp Selector.Plain) [] := by simp [Scope.Conforms]
  have hwarm : warm.Warmed Selector.Plain :=
    .render hcold 8 [] hserves hscope Block.namespaceSample_conforms
  have htext : (outcome (Block.render 8 {} [] [] .namespaceSample) m).1 =
      .ok "#x .m \x7b\n  width: wide;\n\x7d\na \x7b\n  width: wide;\n\x7d\n" := by
    decide +kernel
  have htransparent := Memory.transparent_iff htail
  have hrender := (htransparent.2 Selector.toldApart_plain m hcold).2 warm hwarm 8 {} [] []
    .namespaceSample hserves hscope Block.namespaceSample_conforms
  exact ⟨htail, htransparent.1.mpr Selector.toldApart_plain, hcold, hwarm, by decide +kernel,
    hrender.trans htext⟩

end Stylesheet
