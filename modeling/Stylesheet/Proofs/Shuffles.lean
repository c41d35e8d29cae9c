import Mathlib.Data.List.Forall2
import Mathlib.Logic.Relation

/-!
# Lists up to exchanges and additions

Two lists can be the same but for three things: their elements are related and not equal, some
neighbours have changed places, and the second one has elements of its own in between.

* `Padded R extra`: the second list has elements related to those of the first, in the same order, and
  extra ones.
* `Swapped E` is one exchange of two neighbours that are related by `E`, and `Shuffled E` is one exchange
  after another.
* `ShuffledBy E R extra` puts both together: the first list is shuffled, then the second is compared with it.
* **What is picked keeps its order** (`ShuffledBy.forall₂_filterMap`): if of two elements that may be
  exchanged one is always left out, and extra elements are left out too, then the others are related one by
  one.
* **Fixed points** (`ShuffledBy.of_append_cons`): an element that is never exchanged divides both lists.
* **Images** (`Shuffled.image`): if elements that may be exchanged have images that may be, then the
  images are shuffled along.
-/

namespace Stylesheet

variable {α β γ δ : Type}

/-- Two lists that differ by an exchange of two neighbours. -/
inductive Swapped (E : α → α → Prop) : List α → List α → Prop
  | intro {a b : α} (before after : List α) (h : E a b) :
      Swapped E (before ++ a :: b :: after) (before ++ b :: a :: after)

/-- Two lists that differ by exchanges of neighbours, one after another. -/
def Shuffled (E : α → α → Prop) : List α → List α → Prop :=
  Relation.ReflTransGen (Swapped E)

/-- The second list consists of the elements that are related to those of the first, in the same order,
and of extra ones. -/
inductive Padded (R : α → β → Prop) (extra : β → Prop) : List α → List β → Prop
  | nil : Padded R extra [] []
  | cons {a : α} {b : β} {as : List α} {bs : List β} (hab : R a b) (h : Padded R extra as bs) :
      Padded R extra (a :: as) (b :: bs)
  | extra {b : β} {as : List α} {bs : List β} (hb : extra b) (h : Padded R extra as bs) :
      Padded R extra as (b :: bs)

/-- Two lists whose elements are related, once the first list is shuffled and the extra elements of the
second are left out. -/
def ShuffledBy (E : α → α → Prop) (R : α → β → Prop) (extra : β → Prop) (l : List α) (l' : List β) :
    Prop :=
  ∃ mid, Shuffled E l mid ∧ Padded R extra mid l'

/-! ## Lists of related elements -/

/-- A list that is related to two others end to end is made of two parts. -/
lemma exists_append_of_forall₂ {R : α → β → Prop} {a b : List α} {l : List β}
    (h : List.Forall₂ R (a ++ b) l) :
    ∃ a' b', l = a' ++ b' ∧ List.Forall₂ R a a' ∧ List.Forall₂ R b b' := by
  induction a generalizing l with
  | nil => exact ⟨[], l, rfl, .nil, h⟩
  | cons x a ih =>
    obtain ⟨y, l, hxy, hl, rfl⟩ := List.forall₂_cons_left_iff.mp h
    obtain ⟨a', b', rfl, ha, hb⟩ := ih hl
    exact ⟨y :: a', b', rfl, .cons hxy ha, hb⟩

/-- Lists of related elements, by a relation that need only follow for their elements. -/
lemma forall₂_imp_of_mem {R S : α → β → Prop} {l : List α} {l' : List β} (h : List.Forall₂ R l l')
    (hRS : ∀ a ∈ l, ∀ b, R a b → S a b) : List.Forall₂ S l l' := by
  induction h with
  | nil => exact .nil
  | cons hab _ ih =>
    exact .cons (hRS _ List.mem_cons_self _ hab)
      (ih fun a ha => hRS a (List.mem_cons_of_mem _ ha))

/-- Related elements of which something is the same have the same list of it. -/
lemma map_eq_of_forall₂ {R : α → β → Prop} {f : α → γ} {g : β → γ} {l : List α} {l' : List β}
    (h : List.Forall₂ R l l') (hfg : ∀ a ∈ l, ∀ b, R a b → g b = f a) : l'.map g = l.map f := by
  induction h with
  | nil => rfl
  | cons hab _ ih =>
    rw [List.map_cons, List.map_cons, hfg _ List.mem_cons_self _ hab,
      ih fun a ha => hfg a (List.mem_cons_of_mem _ ha)]

/-- Lists of related elements have related elements at one place. -/
lemma rel_getElem?_of_forall₂ {R : α → β → Prop} {l : List α} {l' : List β} (h : List.Forall₂ R l l')
    (i : Nat) : Option.Rel R l[i]? l'[i]? := by
  induction h generalizing i with
  | nil => exact .none
  | cons hab _ ih =>
    cases i with
    | zero => exact .some hab
    | succ i => exact ih i

/-- The first elements of related lists are related. -/
lemma rel_head?_of_forall₂ {R : α → β → Prop} {l : List α} {l' : List β} (h : List.Forall₂ R l l') :
    Option.Rel R l.head? l'.head? := by
  cases h with
  | nil => exact .none
  | cons hab _ => exact .some hab

/-! ## Extra elements -/

namespace Padded

variable {R : α → β → Prop} {extra : β → Prop} {as as₂ : List α} {bs bs₂ : List β}

/-- Padded lists end to end. -/
lemma append (h : Padded R extra as bs) (h₂ : Padded R extra as₂ bs₂) :
    Padded R extra (as ++ as₂) (bs ++ bs₂) := by
  induction h with
  | nil => exact h₂
  | cons hab _ ih => exact .cons hab ih
  | extra hb _ ih => exact .extra hb ih

/-- There need not be extra elements. -/
lemma of_forall₂ (h : List.Forall₂ R as bs) : Padded R extra as bs := by
  induction h with
  | nil => exact .nil
  | cons hab _ ih => exact .cons hab ih

/-- Without extra elements, the lists are related element by element. -/
lemma forall₂ (h : Padded R extra as bs) (hextra : ∀ b, ¬extra b) : List.Forall₂ R as bs := by
  induction h with
  | nil => exact .nil
  | cons hab _ ih => exact .cons hab ih
  | extra hb => exact absurd hb (hextra _)

/-- Only the elements of the first list have to be related anew. -/
lemma imp {S : α → β → Prop} {extra' : β → Prop} (h : Padded R extra as bs)
    (hS : ∀ a ∈ as, ∀ b, R a b → S a b) (hextra : ∀ b, extra b → extra' b) :
    Padded S extra' as bs := by
  induction h with
  | nil => exact .nil
  | cons hab _ ih =>
    exact .cons (hS _ List.mem_cons_self _ hab) (ih fun a ha => hS a (List.mem_cons_of_mem _ ha))
  | extra hb _ ih => exact .extra (hextra _ hb) (ih hS)

/-- Every element of the first list has its counterpart. -/
lemma exists_of_mem (h : Padded R extra as bs) {a : α} (ha : a ∈ as) : ∃ b, R a b := by
  induction h with
  | nil => cases ha
  | @cons a' b as bs hab _ ih =>
    rcases List.mem_cons.mp ha with rfl | ha
    · exact ⟨b, hab⟩
    · exact ih ha
  | extra _ _ ih => exact ih ha

/-- Where the extra elements are left out, what is picked from both lists is related one by one. -/
lemma forall₂_filterMap {S : γ → δ → Prop} {f : α → Option γ} {g : β → Option δ}
    (h : Padded R extra as bs) (hR : ∀ a b, R a b → Option.Rel S (f a) (g b))
    (hextra : ∀ b, extra b → g b = none) :
    List.Forall₂ S (as.filterMap f) (bs.filterMap g) := by
  induction h with
  | nil => exact .nil
  | @cons a b _ _ hab _ ih =>
    have hpicked := hR a b hab
    rw [List.filterMap_cons, List.filterMap_cons]
    generalize f a = c, g b = d at hpicked ⊢
    cases hpicked with
    | none => exact ih
    | some hcd => exact .cons hcd ih
  | extra hb _ ih =>
    rw [List.filterMap_cons, hextra _ hb]
    exact ih

/-- An element of the first list has its counterpart in the second, and the elements before and after it
are padded by themselves. -/
lemma of_append_cons {a b : List α} {c : α} {l : List β} (h : Padded R extra (a ++ c :: b) l) :
    ∃ a' c' b', l = a' ++ c' :: b' ∧ Padded R extra a a' ∧ R c c' ∧ Padded R extra b b' := by
  generalize hk : a ++ c :: b = k at h
  induction h generalizing a with
  | nil => simp at hk
  | @cons x y xs ys hxy hrest ih =>
    cases a with
    | nil =>
      cases hk
      exact ⟨[], y, ys, rfl, .nil, hxy, hrest⟩
    | cons z a =>
      cases hk
      obtain ⟨a', c', b', rfl, ha, hc, hb⟩ := ih rfl
      exact ⟨y :: a', c', b', rfl, .cons hxy ha, hc, hb⟩
  | @extra y xs ys hy _ ih =>
    obtain ⟨a', c', b', rfl, ha, hc, hb⟩ := ih hk
    exact ⟨y :: a', c', b', rfl, .extra hy ha, hc, hb⟩

end Padded

/-! ## Exchanges

Lemmas about one exchange, and the same for exchanges one after another. -/

namespace Swapped

variable {E : α → α → Prop} {l l' : List α}

/-- An exchange is a permutation. -/
lemma perm (h : Swapped E l l') : l.Perm l' := by
  obtain ⟨before, after, _⟩ := h
  exact (List.Perm.swap _ _ after).append_left before

/-- An exchange can be taken back. -/
lemma symm (hE : ∀ a b, E a b → E b a) (h : Swapped E l l') : Swapped E l' l := by
  obtain ⟨before, after, h⟩ := h
  exact .intro before after (hE _ _ h)

/-- An exchange in a longer list, at its end. -/
lemma append_left (k : List α) (h : Swapped E l l') : Swapped E (k ++ l) (k ++ l') := by
  obtain ⟨before, after, h⟩ := h
  rw [← List.append_assoc, ← List.append_assoc]
  exact .intro (k ++ before) after h

/-- An exchange in a longer list, at its beginning. -/
lemma append_right (h : Swapped E l l') (k : List α) : Swapped E (l ++ k) (l' ++ k) := by
  obtain ⟨before, after, h⟩ := h
  rw [List.append_assoc, List.append_assoc]
  exact .intro before (after ++ k) h

/-- If of the two elements one is left out, the others keep their order. -/
lemma filterMap_eq {f : α → Option β} (hf : ∀ a b, E a b → f a = none ∨ f b = none)
    (h : Swapped E l l') : l'.filterMap f = l.filterMap f := by
  obtain ⟨before, after, h⟩ := h
  simp only [List.filterMap_append, List.filterMap_cons]
  rcases hf _ _ h with hnone | hnone <;> simp only [hnone]

/-- An exchange takes place on one side of an element that is never exchanged. -/
lemma of_append_cons {a b : List α} {c : α} (hc : ∀ x, ¬E x c ∧ ¬E c x)
    (h : Swapped E (a ++ c :: b) l) :
    ∃ a' b', l = a' ++ c :: b' ∧ (Swapped E a a' ∧ b' = b ∨ a' = a ∧ Swapped E b b') := by
  generalize hl : a ++ c :: b = k at h
  obtain ⟨before, after, h⟩ := h
  rcases List.append_eq_append_iff.mp hl with ⟨x, rfl, hx⟩ | ⟨x, rfl, hx⟩
  · cases x with
    | nil =>
      cases hx
      exact absurd h (hc _).2
    | cons _ x =>
      cases hx
      exact ⟨a, x ++ _ :: _ :: after, by simp, .inr ⟨rfl, .intro x after h⟩⟩
  · match x, hx with
    | [], hx =>
      cases hx
      exact absurd h (hc _).2
    | [_], hx =>
      cases hx
      exact absurd h (hc _).1
    | _ :: _ :: x, hx =>
      cases hx
      exact ⟨before ++ _ :: _ :: x, b, by simp, .inl ⟨.intro before x h, rfl⟩⟩

/-- An exchange of elements is an exchange of their images. -/
lemma image {E' : β → β → Prop} {D : α → β → Prop}
    (hD : ∀ a b, E a b → ∀ c d, D a c → D b d → E' c d) (h : Swapped E l l') {k : List β}
    (hl : List.Forall₂ D l k) : ∃ k', Swapped E' k k' ∧ List.Forall₂ D l' k' := by
  obtain ⟨before, after, h⟩ := h
  obtain ⟨before', rest, rfl, hbefore, hrest⟩ := exists_append_of_forall₂ hl
  cases hrest with
  | cons ha hrest =>
    cases hrest with
    | cons hb hafter =>
      exact ⟨_, .intro before' _ (hD _ _ h _ _ ha hb),
        List.rel_append hbefore (.cons hb (.cons ha hafter))⟩

end Swapped

namespace Shuffled

variable {E : α → α → Prop} {l l' k k' : List α}

/-- A list without exchanges. -/
lemma refl (l : List α) : Shuffled E l l :=
  Relation.ReflTransGen.refl

/-- One exchange. -/
lemma of_swapped (h : Swapped E l l') : Shuffled E l l' :=
  Relation.ReflTransGen.single h

/-- Exchanges are a permutation. -/
lemma perm (h : Shuffled E l l') : l.Perm l' := by
  induction h with
  | refl => exact .refl l
  | tail _ hswap ih => exact ih.trans hswap.perm

/-- Exchanges in two lists that stand end to end. -/
lemma append (hl : Shuffled E l l') (hk : Shuffled E k k') : Shuffled E (l ++ k) (l' ++ k') := by
  have hright : Shuffled E (l ++ k) (l' ++ k) := hl.lift (· ++ k) fun _ _ h => h.append_right k
  exact hright.trans (hk.lift (l' ++ ·) fun _ _ h => h.append_left l')

/-- More may be exchanged. -/
lemma imp {E' : α → α → Prop} (hE : ∀ a b, E a b → E' a b) (h : Shuffled E l l') :
    Shuffled E' l l' := by
  refine h.lift id fun k k' hswap => ?_
  obtain ⟨before, after, hab⟩ := hswap
  exact .intro before after (hE _ _ hab)

/-- If of two elements that may be exchanged one is left out, the others keep their order. -/
lemma filterMap_eq {f : α → Option β} (hf : ∀ a b, E a b → f a = none ∨ f b = none)
    (h : Shuffled E l l') : l'.filterMap f = l.filterMap f := by
  induction h with
  | refl => rfl
  | tail _ hswap ih => rw [hswap.filterMap_eq hf, ih]

/-- Both sides of an element that is never exchanged are shuffled by themselves. -/
lemma of_append_cons {a b : List α} {c : α} (hc : ∀ x, ¬E x c ∧ ¬E c x)
    (h : Shuffled E (a ++ c :: b) l) :
    ∃ a' b', l = a' ++ c :: b' ∧ Shuffled E a a' ∧ Shuffled E b b' := by
  induction h with
  | refl => exact ⟨a, b, rfl, refl a, refl b⟩
  | tail _ hswap ih =>
    obtain ⟨a', b', rfl, ha, hb⟩ := ih
    obtain ⟨a'', b'', rfl, hside⟩ := hswap.of_append_cons hc
    rcases hside with ⟨hleft, rfl⟩ | ⟨rfl, hright⟩
    · exact ⟨a'', b'', rfl, ha.tail hleft, hb⟩
    · exact ⟨a'', b'', rfl, ha, hb.tail hright⟩

/-- Images are shuffled along. -/
lemma image {E' : β → β → Prop} {D : α → β → Prop}
    (hD : ∀ a b, E a b → ∀ c d, D a c → D b d → E' c d) (h : Shuffled E l l') {k : List β}
    (hl : List.Forall₂ D l k) : ∃ k', Shuffled E' k k' ∧ List.Forall₂ D l' k' := by
  induction h with
  | refl => exact ⟨k, refl k, hl⟩
  | tail _ hswap ih =>
    obtain ⟨k', hk, hl⟩ := ih
    obtain ⟨k'', hswap, hl⟩ := hswap.image hD hl
    exact ⟨k'', hk.tail hswap, hl⟩

/-- Where nothing may be exchanged, there is one order. -/
lemma eq_of_forall_not (hE : ∀ a b, ¬E a b) (h : Shuffled E l l') : l = l' := by
  induction h with
  | refl => rfl
  | tail _ hswap _ =>
    obtain ⟨_, _, h⟩ := hswap
    exact absurd h (hE _ _)

end Shuffled

/-! ## Both together -/

namespace ShuffledBy

variable {E : α → α → Prop} {R : α → β → Prop} {extra : β → Prop} {l k : List α} {l' k' : List β}

/-- There need not be exchanges. -/
lemma of_padded (h : Padded R extra l l') : ShuffledBy E R extra l l' :=
  ⟨l, .refl l, h⟩

/-- There need not be exchanges, nor extra elements. -/
lemma of_forall₂ (h : List.Forall₂ R l l') : ShuffledBy E R extra l l' :=
  of_padded (.of_forall₂ h)

/-- Where nothing is exchanged and nothing is extra, the lists are related element by element. -/
lemma forall₂ (h : ShuffledBy E R extra l l') (hE : ∀ a b, ¬E a b) (hextra : ∀ b, ¬extra b) :
    List.Forall₂ R l l' := by
  obtain ⟨mid, hshuffle, hmid⟩ := h
  obtain rfl := hshuffle.eq_of_forall_not hE
  exact hmid.forall₂ hextra

/-- More may be exchanged and added, and elements may be related in another way. -/
lemma imp {E' : α → α → Prop} {S : α → β → Prop} {extra' : β → Prop} (h : ShuffledBy E R extra l l')
    (hE : ∀ a b, E a b → E' a b) (hS : ∀ a ∈ l, ∀ b, R a b → S a b)
    (hextra : ∀ b, extra b → extra' b) : ShuffledBy E' S extra' l l' := by
  obtain ⟨mid, hshuffle, hmid⟩ := h
  exact ⟨mid, hshuffle.imp hE,
    hmid.imp (fun a ha => hS a (hshuffle.perm.mem_iff.mpr ha)) hextra⟩

/-- Lists that are compared part by part may be compared end to end. -/
lemma append (hl : ShuffledBy E R extra l l') (hk : ShuffledBy E R extra k k') :
    ShuffledBy E R extra (l ++ k) (l' ++ k') := by
  obtain ⟨mid, hshuffle, hmid⟩ := hl
  obtain ⟨mid', hshuffle', hmid'⟩ := hk
  exact ⟨mid ++ mid', hshuffle.append hshuffle', hmid.append hmid'⟩

/-- The same for any number of parts. -/
lemma flatten {ls : List (List α)} {ls' : List (List β)}
    (h : List.Forall₂ (ShuffledBy E R extra) ls ls') :
    ShuffledBy E R extra ls.flatten ls'.flatten := by
  induction h with
  | nil => exact of_forall₂ .nil
  | cons hl _ ih => exact hl.append ih

/-- What is picked from both lists is related one by one, if nothing that is picked is exchanged with
another picked element, and no extra element is picked. -/
lemma forall₂_filterMap {S : γ → δ → Prop} {f : α → Option γ} {g : β → Option δ}
    (h : ShuffledBy E R extra l l') (hE : ∀ a b, E a b → f a = none ∨ f b = none)
    (hR : ∀ a b, R a b → Option.Rel S (f a) (g b)) (hextra : ∀ b, extra b → g b = none) :
    List.Forall₂ S (l.filterMap f) (l'.filterMap g) := by
  obtain ⟨mid, hshuffle, hmid⟩ := h
  rw [← hshuffle.filterMap_eq hE]
  exact hmid.forall₂_filterMap hR hextra

/-- The same for elements of which the same is picked. -/
lemma filterMap_eq {f : α → Option γ} {g : β → Option γ} (h : ShuffledBy E R extra l l')
    (hE : ∀ a b, E a b → f a = none ∨ f b = none) (hR : ∀ a b, R a b → g b = f a)
    (hextra : ∀ b, extra b → g b = none) : l'.filterMap g = l.filterMap f := by
  have hpicked : List.Forall₂ Eq (l.filterMap f) (l'.filterMap g) := by
    refine h.forall₂_filterMap hE (fun a b hab => ?_) hextra
    rw [hR a b hab]
    cases f a with
    | none => exact .none
    | some c => exact .some rfl
  rw [List.forall₂_eq_eq_eq] at hpicked
  exact hpicked.symm

/-- An element that is never exchanged divides both lists. -/
lemma of_append_cons {a b : List α} {c : α} (hc : ∀ x, ¬E x c ∧ ¬E c x)
    (h : ShuffledBy E R extra (a ++ c :: b) l') :
    ∃ a' c' b', l' = a' ++ c' :: b' ∧ ShuffledBy E R extra a a' ∧ R c c' ∧
      ShuffledBy E R extra b b' := by
  obtain ⟨mid, hshuffle, hmid⟩ := h
  obtain ⟨a₁, b₁, rfl, ha, hb⟩ := hshuffle.of_append_cons hc
  obtain ⟨a', c', b', rfl, ha', hc', hb'⟩ := hmid.of_append_cons
  exact ⟨a', c', b', rfl, ⟨a₁, ha, ha'⟩, hc', ⟨b₁, hb, hb'⟩⟩

end ShuffledBy

end Stylesheet
