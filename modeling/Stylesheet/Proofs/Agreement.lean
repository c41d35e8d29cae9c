import Stylesheet.Proofs.Lockstep

/-!
# Evaluation depends neither on stamps nor on the order of independent rules

Where only selectors are looked up that are told apart by their texts, no reading in a memory decides
anything. Then two runs may start from any two memories that hold such selectors only, and it does not matter
which stamps the blocks have (`Lockstep.toldApart`).

Evaluation stops at the first cause it meets, so the order of rules decides which cause this is. Where
independent rules change places, all that is compared is what succeeds: every cause is excused.
-/

namespace Stylesheet

/-- Stamps may differ in any way, and so may the order of independent rules if `exchanging`. -/
def Variation.loose (exchanging : Prop) : Variation where
  stamps _ _ := True
  exchanges p q := exchanging ∧ (p.MovesPast q ∨ q.MovesPast p)
  added _ := False
  independent h := h.2

/-- Trees that differ in their stamps only differ loosely. -/
lemma Variation.stampsOnly_le_loose (stamps : Nat → Nat → Prop) (exchanging : Prop) :
    (Variation.stampsOnly stamps).Le (.loose exchanging) :=
  ⟨fun _ => trivial, fun h => h.elim, fun h => h.elim⟩

section toldApart

variable {F : Selector → Prop} (hapart : Selector.ToldApart F)
  (htail : ∀ s t, F s → s.tail? = some t → F t) {g : Grammar} (hg : ∀ {s}, g.LooksUp s → F s)

/-- Two runs in which only selectors are looked up that are told apart. Their memories may differ, and
so may the stamps in their trees. -/
def Lockstep.toldApart (exchanging : Prop) : Lockstep where
  World := Unit
  order := Comparison.still
  memories _ m m' := m.Holds F ∧ m'.Holds F
  excuses _ := exchanging
  grammar := g
  variation _ := .loose exchanging
  variation_mono _ := .refl _
  hidden _ := .inr fun _ h => h
  sought s s' := F s ∧ F s' ∧ s'.names = s.names
  sought_self hs := ⟨hg hs, hg hs, rfl⟩
  sought_agrees := by
    rintro s s' ⟨-, -, hnames⟩ own
    rw [Selector.agrees_eq, hnames, Selector.agrees_eq]
  sought_tail := by
    rintro s s' ⟨hs, hs', hnames⟩
    have htails := Selector.rel_tail?_of_names_eq hnames
    have hin := htail s
    have hin' := htail s'
    generalize s.tail? = t, s'.tail? = t' at htails hin hin'
    cases htails with
    | none => exact .none
    | some h => exact .some ⟨hin _ hs rfl, hin' _ hs' rfl, h⟩
  sought_added _ h := h.elim
  fresh hm := ⟨(), trivial, trivial, hm.1.fresh, hm.2.fresh⟩
  reading := by
    rintro - a b s s' m m' - ⟨hs, hs', hnames⟩ ⟨hm, hm'⟩
    obtain ⟨⟨hfirst, htext⟩, hread⟩ := readAt_holds hm a hs
    obtain ⟨⟨hfirst', htext'⟩, hread'⟩ := readAt_holds hm' b hs'
    refine ⟨⟨hfirst, hfirst', ?_⟩, hread, hread'⟩
    rw [hapart _ _ hfirst' hs' htext', hnames, hapart _ _ hfirst hs htext]
  apart h := ⟨fun _ => h.1, Memory.Holds F, Memory.Holds F, fun _ _ _ => Iff.rfl⟩
  alone h := h.elim

variable {hapart htail hg}

/-- A run keeps a memory of selectors in `F` if it is in step with some run at all. -/
lemma Comparison.InStep.holds {α β : Type} {R : Unit → α → β → Prop} {x : EvalM α} {y : EvalM β}
    (h : (Lockstep.toldApart hapart htail hg False).InStep () R x y) {m : Memory} (hm : m.Holds F) :
    (outcome x m).2.Holds F := by
  rcases h m m ⟨hm, hm⟩ with ⟨_, -, hexcused⟩ | ⟨_, -, -, hmemories⟩
  · exact hexcused.elim
  · exact hmemories.1

/-- Every tree is alike to itself. -/
lemma Lockstep.toldApart_refl {exchanging : Prop} :
    (∀ n : Node, n.Alike ((Lockstep.toldApart hapart htail hg exchanging).variation ()) n) ∧
      ∀ b : Block, b.Alike ((Lockstep.toldApart hapart htail hg exchanging).variation ()) b :=
  alike_refl fun _ => trivial

/-- Every scope is alike to itself. -/
lemma Scope.toldApart_refl {exchanging : Prop} (scope : Scope) :
    Scope.Alike ((Lockstep.toldApart hapart htail hg exchanging).variation ()) scope scope :=
  Scope.alike_refl (fun _ => trivial) scope

/-- Both runs are in one environment. -/
lemma Lockstep.environments_toldApart {exchanging : Prop} (env : Env) :
    (Lockstep.toldApart hapart htail hg exchanging).Environments () env env :=
  .refl fun _ tree _ => Lockstep.toldApart_refl.2 tree

end toldApart

end Stylesheet
