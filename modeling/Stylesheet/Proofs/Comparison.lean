import Mathlib.Order.Basic
import Stylesheet.Proofs.Outcome
import Stylesheet.Proofs.Shuffles

/-!
# Two computations in step

A `Comparison` says which memories two runs may have at one time. What is known of the two runs is their
*world*; it grows while they go on. `C.InStep w R x y`: from memories that belong together in the world `w`,
both computations end with related values or for the same cause, and leave memories that belong together;
only the first one may stop for a cause of its own if that is excused.

* **Sequences** (`InStep.bind_ensures`): one step after another, with what the first run ensures.
* **Lists** (`InStep.mapM_padded`): the second list may have extra elements, on which its run *rests*
  (`Rests`) while nothing happens in the first one.
* **Lists in another order** (`InStep.mapM_shuffled`): if all causes are excused, and if it depends on neither
  memory what the other one may be, then no element depends on what the others leave behind, and each may be
  taken by itself.
-/

namespace Stylesheet

variable {α β γ δ : Type}

/-- A way to compare two runs. -/
structure Comparison where
  /-- What can be known of two runs. -/
  World : Type
  /-- What is known stays known. -/
  [order : Preorder World]
  /-- The pairs of memories that the runs may have at one time. -/
  memories : World → Memory → Memory → Prop
  /-- The causes for which the first run may stop without a counterpart. -/
  excuses : EvalError → Prop

attribute [instance] Comparison.order

/-- The order of a world in which nothing more can become known. -/
abbrev Comparison.still : Preorder Unit where
  le _ _ := True
  lt _ _ := False
  le_refl _ := trivial
  le_trans _ _ _ _ _ := trivial
  lt_iff_le_not_ge _ _ := ⟨False.elim, fun h => h.2 trivial⟩

/-- The second memory is the first one after some stamps have been drawn. -/
abbrev Memory.Drawn : Memory → Memory → Prop :=
  Relation.ReflTransGen fun m m' => m' = m.fresh.2

/-- The computation gives something with the property `P`, and nothing happens but that it may draw
stamps. -/
def Rests (P : β → Prop) (y : EvalM β) : Prop :=
  ∀ m, ∃ b n, outcome y m = (.ok b, n) ∧ P b ∧ m.Drawn n

namespace Comparison

variable {C : Comparison}

/-- From memories that belong together, both computations end with related values or for the same cause and
leave memories that belong together, unless the first one stops for an excused cause. -/
def InStep (C : Comparison) (w : C.World) (R : C.World → α → β → Prop) (x : EvalM α) (y : EvalM β) :
    Prop :=
  ∀ m m', C.memories w m m' →
    (∃ e, (outcome x m).1 = .error e ∧ C.excuses e) ∨
      ∃ w', w ≤ w' ∧ Concurs (R w') (outcome x m).1 (outcome y m').1 ∧
        C.memories w' (outcome x m).2 (outcome y m').2

/-- A relation that lasts while the world grows. -/
def Lasting (C : Comparison) (R : C.World → α → β → Prop) : Prop :=
  ∀ ⦃w w' : C.World⦄, w ≤ w' → ∀ ⦃a : α⦄ ⦃b : β⦄, R w a b → R w' a b

/-- The second run may draw a stamp by itself. -/
def Alone (C : Comparison) : Prop :=
  ∀ {w m m'}, C.memories w m m' → C.memories w m m'.fresh.2

/-- It may draw as many as it likes. -/
lemma Alone.drawn (h : C.Alone) {w : C.World} {m m' n : Memory} (hm : C.memories w m m')
    (hn : m'.Drawn n) : C.memories w m n := by
  induction hn with
  | refl => exact hm
  | tail _ hstep ih =>
    rw [hstep]
    exact h ih

/-- Nothing that one run does depends on the other: all causes are excused, and either memory may be any one
with a property of its own. -/
def Apart (C : Comparison) : Prop :=
  (∀ e, C.excuses e) ∧ ∃ A B : Memory → Prop, ∀ w m m', C.memories w m m' ↔ A m ∧ B m'

namespace InStep

variable {w : C.World} {R : C.World → α → β → Prop} {S : C.World → γ → δ → Prop} {x : EvalM α}
  {y : EvalM β} {k : α → EvalM γ} {l : β → EvalM δ}

/-- Where the first run ends with a value, so does the second. -/
lemma of_ok (h : C.InStep w R x y) {m m' n : Memory} {a : α} (hm : C.memories w m m')
    (hx : outcome x m = (.ok a, n)) :
    ∃ w' b n', w ≤ w' ∧ outcome y m' = (.ok b, n') ∧ R w' a b ∧ C.memories w' n n' := by
  have hboth := h m m' hm
  rw [hx] at hboth
  rcases hboth with ⟨e, he, -⟩ | ⟨w', hw', hvalues, hmemories⟩
  · cases he
  · rcases hy : outcome y m' with ⟨e | b, n'⟩ <;> rw [hy] at hvalues hmemories <;> cases hvalues
    next hab => exact ⟨w', b, n', hw', rfl, hab, hmemories⟩

/-- Results that are the same are the same for both runs, if the first one has no excuse. -/
lemma result_eq {x y : EvalM α} (h : C.InStep w (fun _ => Eq) x y) {m m' : Memory}
    (hm : C.memories w m m') (hno : ∀ e, (outcome x m).1 = .error e → ¬C.excuses e) :
    (outcome y m').1 = (outcome x m).1 := by
  rcases h m m' hm with ⟨e, he, hexcused⟩ | ⟨_, -, hvalues, -⟩
  · exact absurd hexcused (hno e he)
  · exact hvalues.eq.symm

/-- Results at hand. -/
lemma pure {a : α} {b : β} (h : R w a b) : C.InStep w R (pure a) (pure b) :=
  fun _ _ hm => .inr ⟨w, le_refl w, .ok h, hm⟩

/-- Both runs stop. -/
lemma throw (e : EvalError) : C.InStep w R (throw e) (throw e) :=
  fun _ _ hm => .inr ⟨w, le_refl w, .error e, hm⟩

/-- The first run stops for an excused cause. -/
lemma excused {e : EvalError} (h : C.excuses e) : C.InStep w R (MonadExcept.throw e) y :=
  fun _ _ _ => .inl ⟨e, rfl, h⟩

/-- Steps that can only stop. -/
lemma liftExcept {x : Except EvalError α} {y : Except EvalError β} (h : Concurs (R w) x y) :
    C.InStep w R (liftM x) (liftM y) :=
  fun _ _ hm => .inr ⟨w, le_refl w, h, hm⟩

/-- One step after another; of the first value it is also known what the first step ensures. -/
lemma bind_ensures {P : α → Prop} {E : EvalError → Prop} (hx : C.InStep w R x y) (hP : Ensures x P E)
    (hk : ∀ w', w ≤ w' → ∀ a b, R w' a b → P a → C.InStep w' S (k a) (l b)) :
    C.InStep w S (x >>= k) (y >>= l) := by
  intro m m' hm
  have hfirst := hx m m' hm
  rcases hxm : outcome x m with ⟨e | a, n⟩
  · -- the first run stops in its first step
    rw [hxm] at hfirst
    rw [outcome_bind_of_error hxm]
    rcases hfirst with ⟨e', he', hexcused⟩ | ⟨w₁, hw₁, hvalues, hmemories⟩
    · cases he'
      exact .inl ⟨e, rfl, hexcused⟩
    · rcases hym : outcome y m' with ⟨e' | b, n'⟩ <;> rw [hym] at hvalues hmemories <;> cases hvalues
      rw [outcome_bind_of_error hym]
      exact .inr ⟨w₁, hw₁, .error e, hmemories⟩
  · obtain ⟨w₁, b, n', hw₁, hym, hab, hmemories⟩ := hx.of_ok hm hxm
    rw [outcome_bind_of_ok hxm, outcome_bind_of_ok hym]
    rcases hk w₁ hw₁ a b hab (hP.value hxm) n n' hmemories with hexcused | ⟨w₂, hw₂, hvalues, hend⟩
    · exact .inl hexcused
    · exact .inr ⟨w₂, le_trans hw₁ hw₂, hvalues, hend⟩

/-- One step after another. -/
lemma bind (hx : C.InStep w R x y) (hk : ∀ w', w ≤ w' → ∀ a b, R w' a b → C.InStep w' S (k a) (l b)) :
    C.InStep w S (x >>= k) (y >>= l) :=
  hx.bind_ensures (Ensures.trivial x) fun w' hw' a b hab _ => hk w' hw' a b hab

/-- Results may be compared by a weaker relation. -/
lemma imp {T : C.World → α → β → Prop} (hx : C.InStep w R x y)
    (h : ∀ w', w ≤ w' → ∀ a b, R w' a b → T w' a b) : C.InStep w T x y := by
  rw [← bind_pure x, ← bind_pure y]
  exact hx.bind fun w' hw' a b hab => .pure (h w' hw' a b hab)

/-- The first of two computations in step may be replaced by one that concurs with it. -/
lemma of_concurs {T : α → α → Prop} {x x' : Except EvalError α} (h : Concurs T x x')
    (hx : C.InStep w R (liftM x') y) :
    C.InStep w (fun w' a b => ∃ a', T a a' ∧ R w' a' b) (liftM x) y := by
  rw [← bind_pure y]
  cases h with
  | @ok a a' haa' =>
    exact hx.bind_ensures (P := fun c => c = a') (E := fun _ => True) (.pure rfl)
      (k := fun _ => Pure.pure a) fun w' _ c b hcb hc => .pure ⟨a', haa', hc ▸ hcb⟩
  | error e =>
    rw [← bind_pure (liftM _ : EvalM α)]
    exact hx.bind_ensures (P := fun _ => False) (E := fun _ => True) (.throw trivial)
      fun _ _ _ _ _ h => h.elim

/-- The second run may rest before it goes on. -/
lemma of_rests (halone : C.Alone) {P : δ → Prop} {z : EvalM δ} {l : δ → EvalM β} (hz : Rests P z)
    (h : ∀ d, P d → C.InStep w R x (l d)) : C.InStep w R x (z >>= l) := by
  intro m m' hm
  obtain ⟨d, n, hrest, hd, hdrawn⟩ := hz m'
  rw [outcome_bind_of_ok hrest]
  exact h d hd m n (halone.drawn hm hdrawn)

/-! ## Lists

Both runs go through their lists from the left. Where an element belongs to the second list only, the
second run takes it while the first one waits, so it may do nothing but draw stamps. -/

/-- Lists from left to right, the second one with extra elements on which its run rests. -/
lemma mapM_padded {R : α → β → Prop} {extra : β → Prop} {X : δ → Prop} {f : α → EvalM γ}
    {g : β → EvalM δ} {as : List α} {bs : List β} (hS : C.Lasting S) (hl : Padded R extra as bs)
    (h : ∀ w', w ≤ w' → ∀ a ∈ as, ∀ b, R a b → C.InStep w' S (f a) (g b))
    (hextra : ∀ b, extra b → C.Alone ∧ Rests X (g b)) :
    C.InStep w (fun w' => Padded (S w') X) (as.mapM f) (bs.mapM g) := by
  induction hl generalizing w with
  | nil =>
    rw [List.mapM_nil, List.mapM_nil]
    exact .pure .nil
  | @cons a b as bs hab _ ih =>
    rw [List.mapM_cons, List.mapM_cons]
    refine (h w (le_refl w) a List.mem_cons_self b hab).bind fun w₁ hw₁ c d hcd => ?_
    have hrest := ih fun w' hw' a' ha' => h w' (le_trans hw₁ hw') a' (List.mem_cons_of_mem a ha')
    exact hrest.bind fun w₂ hw₂ cs ds hcds => .pure (.cons (hS hw₂ hcd) hcds)
  | @extra b as bs hb _ ih =>
    obtain ⟨halone, hrests⟩ := hextra b hb
    rw [List.mapM_cons, ← bind_pure (as.mapM f)]
    refine of_rests halone hrests fun d hd => ?_
    exact (ih h).bind fun w' _ cs ds hcds => .pure (.extra hd hcds)

/-- Lists of related elements, from left to right. -/
lemma mapM {R : α → β → Prop} {f : α → EvalM γ} {g : β → EvalM δ} {as : List α} {bs : List β}
    (hS : C.Lasting S) (hl : List.Forall₂ R as bs)
    (h : ∀ w', w ≤ w' → ∀ a ∈ as, ∀ b, R a b → C.InStep w' S (f a) (g b)) :
    C.InStep w (fun w' => List.Forall₂ (S w')) (as.mapM f) (bs.mapM g) := by
  have hpadded : C.InStep w (fun w' => Padded (S w') fun _ => False) (as.mapM f) (bs.mapM g) :=
    mapM_padded hS (.of_forall₂ hl) h fun _ (hb : False) => hb.elim
  exact hpadded.imp fun _ _ _ _ hcds => hcds.forall₂ fun _ hd => hd

end InStep

/-! ## Lists in another order

In another order an element is met with a memory that other elements have left. So the two runs cannot be
followed side by side. They are compared by what each element gives from any memory that can occur
(`Delivers`). -/

/-- The value that a computation ends with from some memory with the property `A`. -/
def Delivers (A : Memory → Prop) (x : EvalM α) (a : α) : Prop :=
  ∃ m n, A m ∧ outcome x m = (.ok a, n)

/-- Each element of a list delivers its part of the result. -/
lemma Delivers.mapM {A : Memory → Prop} {f : α → EvalM β} {as : List α}
    (hkeeps : ∀ a ∈ as, ∀ m n b, A m → outcome (f a) m = (.ok b, n) → A n) {m n : Memory}
    {bs : List β} (hm : A m) (h : outcome (as.mapM f) m = (.ok bs, n)) :
    A n ∧ List.Forall₂ (fun a b => Delivers A (f a) b) as bs := by
  induction as generalizing m bs with
  | nil =>
    rw [List.mapM_nil] at h
    cases h
    exact ⟨hm, .nil⟩
  | cons a as ih =>
    rw [List.mapM_cons] at h
    obtain ⟨b, m₁, hb, h⟩ := outcome_bind_ok.mp h
    obtain ⟨bs', m₂, hbs, h⟩ := outcome_bind_ok.mp h
    cases h
    have hm₁ := hkeeps a List.mem_cons_self m m₁ b hm hb
    obtain ⟨hn, hall⟩ := ih (fun a' ha' => hkeeps a' (List.mem_cons_of_mem a ha')) hm₁ hbs
    exact ⟨hn, .cons ⟨m, m₁, hm, hb⟩ hall⟩

section apart

variable {w : C.World} {R : α → β → Prop} {extra : β → Prop} {S : C.World → γ → δ → Prop}
  {X : δ → Prop} {f : α → EvalM γ} {g : β → EvalM δ} {A B : Memory → Prop}
  (hmemories : ∀ w m m', C.memories w m m' ↔ A m ∧ B m') (hS : C.Lasting S)
  (hextra : ∀ b, extra b → C.Alone ∧ Rests X (g b))

include hmemories hS hextra

/-- What the elements of one list deliver, those of a list that follows them give in one run. Each element
of the second list starts from what those before it have left, and that is as good as the memory in which
its partner has delivered. -/
lemma Delivers.exists_mapM {as : List α} {bs : List β} {cs : List γ} (hl : Padded R extra as bs)
    (h : ∀ w', w ≤ w' → ∀ a ∈ as, ∀ b, R a b → C.InStep w' S (f a) (g b))
    (hcs : List.Forall₂ (fun a c => Delivers A (f a) c) as cs) {m m' : Memory} (hm : A m)
    (hm' : B m') :
    ∃ w' ds n, w ≤ w' ∧ outcome (bs.mapM g) m' = (.ok ds, n) ∧ Padded (S w') X cs ds ∧ B n := by
  induction hl generalizing w cs m' with
  | nil =>
    cases hcs
    exact ⟨w, [], m', le_refl w, rfl, .nil, hm'⟩
  | @cons a b as bs hab _ ih =>
    obtain ⟨c, rest, ⟨m₀, n₀, hm₀, hc⟩, hrest, rfl⟩ := List.forall₂_cons_left_iff.mp hcs
    obtain ⟨w₁, d, m₁, hw₁, hd, hcd, hm₁⟩ := (h w (le_refl w) a List.mem_cons_self b hab).of_ok
      ((hmemories w m₀ m').mpr ⟨hm₀, hm'⟩) hc
    obtain ⟨w₂, ds, n, hw₂, hds, hcds, hn⟩ := ih
      (fun w' hw' a' ha' => h w' (le_trans hw₁ hw') a' (List.mem_cons_of_mem a ha')) hrest
      ((hmemories _ _ _).mp hm₁).2
    refine ⟨w₂, d :: ds, n, le_trans hw₁ hw₂, ?_, .cons (hS hw₂ hcd) hcds, hn⟩
    rw [List.mapM_cons, outcome_bind_of_ok hd, outcome_bind_of_ok hds]
    rfl
  | @extra b as bs hb _ ih =>
    obtain ⟨halone, hrests⟩ := hextra b hb
    obtain ⟨d, m₁, hd₁, hd, hdrawn⟩ := hrests m'
    have hm₁ := halone.drawn ((hmemories w m m').mpr ⟨hm, hm'⟩) hdrawn
    obtain ⟨w', ds, n, hw', hds, hcds, hn⟩ := ih h hcs ((hmemories w m m₁).mp hm₁).2
    refine ⟨w', d :: ds, n, hw', ?_, .extra hd hcds, hn⟩
    rw [List.mapM_cons, outcome_bind_of_ok hd₁, outcome_bind_of_ok hds]
    rfl

/-- Elements in another order give results in another order. No element depends on what the others
leave in memory, so each may be taken by itself. -/
lemma InStep.mapM_shuffled (hall : ∀ e, C.excuses e) {E : α → α → Prop} {E' : γ → γ → Prop}
    {P : α → γ → Prop} {as : List α} {bs : List β} (hl : ShuffledBy E R extra as bs)
    (h : ∀ w', w ≤ w' → ∀ a ∈ as, ∀ b, R a b → C.InStep w' S (f a) (g b))
    (hP : ∀ a ∈ as, Ensures (f a) (P a) fun _ => True)
    (hE : ∀ a a', E a a' → ∀ c c', P a c → P a' c' → E' c c') :
    C.InStep w (fun w' => ShuffledBy E' (S w') X) (as.mapM f) (bs.mapM g) := by
  obtain ⟨mid, hshuffle, hmid⟩ := hl
  intro m m' hm
  obtain ⟨hA, hB⟩ := (hmemories w m m').mp hm
  rcases hcs : outcome (as.mapM f) m with ⟨e | cs, n⟩
  · exact .inl ⟨e, rfl, hall e⟩
  have hmem : ∀ {a}, a ∈ as ↔ a ∈ mid := hshuffle.perm.mem_iff
  have hkeeps : ∀ a ∈ as, ∀ m n c, A m → outcome (f a) m = (.ok c, n) → A n := by
    intro a ha m n c hm hc
    obtain ⟨b, hab⟩ := hmid.exists_of_mem (hmem.mp ha)
    obtain ⟨_, _, _, -, -, -, hn⟩ := (h w (le_refl w) a ha b hab).of_ok
      ((hmemories w m m').mpr ⟨hm, hB⟩) hc
    exact ((hmemories _ _ _).mp hn).1
  obtain ⟨hn, hdelivers⟩ := Delivers.mapM hkeeps hA hcs
  -- what an element delivers has the properties that its computation ensures
  have hknown : List.Forall₂ (fun a c => Delivers A (f a) c ∧ P a c) as cs := by
    refine forall₂_imp_of_mem hdelivers fun a ha c hc => ⟨hc, ?_⟩
    obtain ⟨m, n, -, hc⟩ := hc
    exact (hP a ha).value hc
  obtain ⟨cs', hshuffle', hcs'⟩ := hshuffle.image
    (fun a a' haa' c c' hc hc' => hE a a' haa' c c' hc.2 hc'.2) hknown
  obtain ⟨w', ds, n', hw', hds, hcds, hn'⟩ := Delivers.exists_mapM hmemories hS hextra hmid
    (fun w' hw' a ha => h w' hw' a (hmem.mpr ha)) (hcs'.imp fun _ _ hc => hc.1) hA hB
  rw [hds]
  exact .inr ⟨w', hw', .ok ⟨cs', hshuffle', hcds⟩, (hmemories _ _ _).mpr ⟨hn, hn'⟩⟩

end apart

end Comparison

end Stylesheet
