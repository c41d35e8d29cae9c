import Stylesheet.Proofs.Lockstep
import Stylesheet.Proofs.Pairing

/-!
# Mixin definitions that nothing names

Let `names` be texts among which are those of all elements in the selectors of mixin calls and accessors.
A mixin definition is *idle* if none of its selectors begins with one of these texts: whatever is looked
up, under whatever reading, such a definition is passed over.

`Block.Grown names stamps b b'` says that `b'` is `b` with idle definitions added, anywhere among the rules
of any block in it. Stamps may differ too; `stamps` says which belong together. What was added may be
written in any way: it is never looked into.

**Runs on grown trees are in step** (`Lockstep.grown`). This needs that no block and no call stands as a
value: values are then the same on both sides. An added definition captures its surroundings like any other
one, which draws a stamp in one of the two runs only.
-/

namespace Stylesheet

/-! ## Idle definitions

A search compares the first element of a block's own selectors with the first element of what is looked
up, by their texts. Nothing else of a definition is looked at before it is found. -/

/-- All elements have texts among `names`. -/
def Selector.Within (names : String → Prop) (s : Selector) : Prop :=
  ∀ e ∈ s.elements, names e.value

/-- What is left to look up inside is within the texts. -/
lemma Selector.Within.tail {names : String → Prop} {s t : Selector} (h : s.Within names)
    (ht : s.tail? = some t) : t.Within names := by
  obtain ⟨elements⟩ := s
  rcases elements with - | ⟨first, - | ⟨⟨combinator, value⟩, rest⟩⟩
  · cases ht
  · cases ht
  · cases ht
    rw [Selector.Within, List.forall_mem_cons, List.forall_mem_cons] at h
    obtain ⟨-, hvalue, hrest⟩ := h
    cases combinator <;> exact List.forall_mem_cons.mpr ⟨hvalue, hrest⟩

/-- A mixin definition whose selectors begin with none of the texts. -/
structure Block.Idle (names : String → Prop) (d : Block) : Prop where
  /-- It is a definition. -/
  definition : d.isDefinition = true
  /-- No selector begins with one of the texts. -/
  unnamed : ∀ s ∈ d.selectors, ∀ e, s.elements.head? = some e → ¬names e.value

variable {names : String → Prop}

/-- Selectors that begin with none of the texts agree with nothing that is within them. -/
lemma Selector.any_agrees_eq_false {own : List Selector}
    (h : ∀ s ∈ own, ∀ e, s.elements.head? = some e → ¬names e.value) {s : Selector}
    (hs : s.Within names) : (own.any fun t => t.agrees s) = false := by
  rw [List.any_eq_false]
  intro t ht hagrees
  have hunnamed := h t ht
  obtain ⟨elements⟩ := t
  obtain ⟨looked⟩ := s
  cases elements with
  | nil => cases hagrees
  | cons e _ =>
    cases looked with
    | nil => cases hagrees
    | cons f _ =>
      have hvalue : e.value = f.value := by simpa [Selector.agrees] using hagrees
      exact hunnamed e rfl (hvalue ▸ hs f List.mem_cons_self)

/-- Neither blocks nor mixin calls as values; only selectors within `names` in calls and accessors. -/
def Grammar.within (names : String → Prop) : Grammar where
  allows p
    | .block _ => p = .rule
    | .mixin s => p = .rule ∧ s.Within names
    | .accessor s => s.Within names
    | _ => True
  text _ := trivial
  number _ := trivial
  color _ := trivial
  declaration := trivial
  rule_of_value := by
    intro s hs
    cases s with
    | block => rfl
    | mixin => exact ⟨rfl, hs.2⟩
    | accessor => exact hs
    | _ => trivial

/-- Neither blocks nor calls are values. -/
lemma Grammar.strict_within : (Grammar.within names).Strict := by
  intro s hs
  cases s with
  | block => cases hs
  | mixin => cases hs.1
  | _ => exact ⟨rfl, rfl⟩

/-! ## Grown trees

Definitions are told to be idle by their selectors alone, so whether one may be added does not depend on
its rules or on its stamp. -/

/-- Idle definitions may be added, and stamps may differ. -/
def Variation.grown (names : String → Prop) (stamps : Nat → Nat → Prop) : Variation :=
  { Variation.stampsOnly stamps with
    added := fun selectors => ∀ s ∈ selectors, ∀ e, s.elements.head? = some e → ¬names e.value }

/-- The second node is the first one with idle definitions added at any depth. -/
abbrev Node.Grown (names : String → Prop) (stamps : Nat → Nat → Prop) : Node → Node → Prop :=
  Node.Alike (.grown names stamps)

/-- The second block is the first one with idle definitions added at any depth. -/
abbrev Block.Grown (names : String → Prop) (stamps : Nat → Nat → Prop) : Block → Block → Prop :=
  Block.Alike (.grown names stamps)

section grown

variable {stamps : Nat → Nat → Prop}

/-- An idle definition may be added. -/
lemma Block.Idle.added {d : Block} (h : d.Idle names) :
    (Variation.grown names stamps).Added (.block d) :=
  ⟨d, rfl, h.definition, h.unnamed⟩

/-- The rules of grown blocks, in their order. -/
lemma Block.Grown.padded {b b' : Block} (h : b.Grown names stamps b') :
    Padded (Node.Grown names stamps) (Variation.grown names stamps).Added b.rules b'.rules := by
  obtain ⟨mid, hshuffle, hpadded⟩ := h.rules
  obtain rfl := hshuffle.eq_of_forall_not fun _ _ hrs => hrs
  exact hpadded

end grown

/-- Two runs on trees of which the second has grown. -/
def Lockstep.grown (names : String → Prop) : Lockstep where
  World := Pairing
  memories w m m' := m.Paired (Selector.Within names) w m'
  excuses _ := False
  grammar := .within names
  variation w := .grown names w.rel
  variation_mono hw := ⟨Pairing.rel_mono hw, id, id⟩
  hidden _ := .inl Grammar.strict_within
  sought s s' := s' = s ∧ s.Within names
  sought_self := by
    rintro s ⟨p, hs | hs⟩
    · exact ⟨rfl, hs⟩
    · exact ⟨rfl, hs.2⟩
  sought_agrees h own := by rw [h.1]
  sought_tail := by
    rintro _ s ⟨rfl, hs⟩
    cases htail : s.tail? with
    | none => exact .none
    | some t => exact .some ⟨rfl, hs.tail htail⟩
  sought_added := by
    rintro _ s _ l ⟨rfl, hs⟩ hadded
    exact Selector.any_agrees_eq_false hadded hs
  fresh hm := hm.fresh
  reading := by
    rintro w a b _ s m m' hab ⟨rfl, hs⟩ hm
    exact hm.readAt hab hs
  apart h := h.elim
  alone _ := Memory.Paired.fresh_right

end Stylesheet
