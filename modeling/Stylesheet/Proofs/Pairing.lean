import Mathlib.Order.Defs.PartialOrder
import Stylesheet.Proofs.Readings

/-!
# Two memories, one of which has drawn more stamps

Where a tree holds more blocks than another one, evaluating it draws more stamps. The stamps that both
runs draw can still be paired, and every pair of blocks can have the same readings.

* A `Pairing` says which stamps belong together. It grows while the runs go on, and what was paired stays
  paired: `w ≤ w'`.
* `Memory.Paired F w m m'`: paired stamps have the same readings, all of them of selectors in `F`. New stamps
  can be paired (`Memory.Paired.fresh`) or left alone (`Memory.Paired.fresh_right`), and paired blocks read
  selectors as the same ones (`Memory.Paired.readAt`).
-/

namespace Stylesheet

/-- Which stamps of two runs belong together; none has more than one partner. -/
structure Pairing where
  /-- The stamps belong together. -/
  rel : Nat → Nat → Prop
  /-- A stamp of the first run has one partner. -/
  functional : ∀ {a b c}, rel a b → rel a c → b = c
  /-- A stamp of the second run has one partner. -/
  injective : ∀ {a b c}, rel a c → rel b c → a = b

namespace Pairing

/-- What is paired stays paired. -/
instance : Preorder Pairing where
  le w w' := ∀ a b, w.rel a b → w'.rel a b
  le_refl _ _ _ h := h
  le_trans _ _ _ h h' a b hab := h' a b (h a b hab)

/-- A larger pairing pairs what a smaller one does. -/
lemma rel_mono {w w' : Pairing} (hw : w ≤ w') {a b : Nat} (h : w.rel a b) : w'.rel a b :=
  hw a b h

/-- No stamps are paired. -/
def none : Pairing where
  rel _ _ := False
  functional h := h.elim
  injective h := h.elim

/-- Every stamp below a bound is paired with itself. -/
def same (bound : Nat) : Pairing where
  rel a b := a = b ∧ a < bound
  functional h h' := h.1.symm.trans h'.1
  injective h h' := h.1.trans h'.1.symm

/-- One more pair, of stamps without partners. -/
def insert (w : Pairing) (a b : Nat) (ha : ∀ c, ¬w.rel a c) (hb : ∀ c, ¬w.rel c b) : Pairing where
  rel c d := w.rel c d ∨ c = a ∧ d = b
  functional := by
    rintro c d e (h | ⟨rfl, rfl⟩) (h' | ⟨h', rfl⟩)
    · exact w.functional h h'
    · exact absurd (h' ▸ h) (ha d)
    · exact absurd h' (ha e)
    · rfl
  injective := by
    rintro c d e (h | ⟨rfl, rfl⟩) (h' | ⟨rfl, h'⟩)
    · exact w.injective h h'
    · exact absurd (h' ▸ h) (hb c)
    · exact absurd h' (hb d)
    · rfl

end Pairing

/-- Blocks with paired stamps read every text in the same way, as a selector in `F`. -/
structure Memory.Paired (F : Selector → Prop) (w : Pairing) (m m' : Memory) : Prop where
  /-- Paired stamps are known. -/
  known : ∀ {a b}, w.rel a b → a < m.readings.size ∧ b < m'.readings.size
  /-- They have the same readings. -/
  readings : ∀ {a b}, w.rel a b → ∀ text, m'.reading? b text = m.reading? a text
  /-- Only selectors in `F` have been looked up. -/
  holds : m.Holds F

namespace Memory.Paired

variable {F : Selector → Prop} {w : Pairing} {m m' : Memory}

/-- A new stamp makes the memory know one block more. -/
lemma size_fresh (m : Memory) : m.fresh.2.readings.size = m.readings.size + 1 :=
  Array.size_push _

/-- A stamp that only the second run draws has no partner. -/
lemma fresh_right (h : m.Paired F w m') : m.Paired F w m'.fresh.2 := by
  refine ⟨?_, ?_, h.holds⟩
  · intro a b hab
    obtain ⟨ha, hb⟩ := h.known hab
    rw [size_fresh]
    exact ⟨ha, by omega⟩
  · intro a b hab text
    rw [Memory.reading?_fresh]
    exact h.readings hab text

/-- Stamps that both runs draw become partners. -/
lemma fresh (h : m.Paired F w m') :
    ∃ w', w ≤ w' ∧ w'.rel m.readings.size m'.readings.size ∧ m.fresh.2.Paired F w' m'.fresh.2 := by
  have hleft : ∀ c, ¬w.rel m.readings.size c := fun c hc => Nat.lt_irrefl _ (h.known hc).1
  have hright : ∀ c, ¬w.rel c m'.readings.size := fun c hc => Nat.lt_irrefl _ (h.known hc).2
  refine ⟨w.insert _ _ hleft hright, fun a b hab => .inl hab, .inr ⟨rfl, rfl⟩, ?_, ?_, h.holds.fresh⟩
  · rintro a b (hab | ⟨rfl, rfl⟩)
    · obtain ⟨ha, hb⟩ := h.known hab
      rw [size_fresh, size_fresh]
      omega
    · rw [size_fresh, size_fresh]
      omega
  · rintro a b (hab | ⟨rfl, rfl⟩) text
    · rw [Memory.reading?_fresh, Memory.reading?_fresh]
      exact h.readings hab text
    · -- a new block has no readings
      have hnew : ∀ n : Memory, n.reading? n.readings.size text = .none := by
        intro n
        simp [Memory.reading?]
      rw [Memory.reading?_fresh, Memory.reading?_fresh, hnew, hnew]

/-- The same reading is fixed in paired blocks. -/
lemma record (h : m.Paired F w m') {a b : Nat} (hab : w.rel a b) {s : Selector} (hs : F s) :
    (m.record a s.toCss s).Paired F w (m'.record b s.toCss s) := by
  refine ⟨?_, ?_, h.holds.record a hs⟩
  · intro c d hcd
    simpa [Memory.record] using h.known hcd
  · intro c d hcd text
    by_cases hsame : c = a ∧ text = s.toCss
    · obtain ⟨rfl, rfl⟩ := hsame
      obtain rfl := w.functional hab hcd
      rw [Memory.reading?_record_self (h.known hab).1, Memory.reading?_record_self (h.known hab).2]
    · have hsame' : ¬(d = b ∧ text = s.toCss) := by
        rintro ⟨rfl, rfl⟩
        exact hsame ⟨w.injective hcd hab, rfl⟩
      rw [Memory.reading?_record_of_ne hsame, Memory.reading?_record_of_ne hsame']
      exact h.readings hcd text

/-- Paired blocks read a selector as the same one. -/
lemma readAt (h : m.Paired F w m') {a b : Nat} (hab : w.rel a b) {s : Selector} (hs : F s) :
    (((readAt b s).run m').1 = ((readAt a s).run m).1 ∧ F ((readAt a s).run m).1) ∧
      ((readAt a s).run m).2.Paired F w ((readAt b s).run m').2 := by
  cases hreading : m.reading? a s.toCss with
  | some first =>
    have hreading' : m'.reading? b s.toCss = some first := (h.readings hab _).trans hreading
    rw [readAt_of_some hreading, readAt_of_some hreading']
    exact ⟨⟨rfl, (h.holds _ _ _ hreading).1⟩, h⟩
  | none =>
    have hreading' : m'.reading? b s.toCss = .none := (h.readings hab _).trans hreading
    rw [readAt_of_none hreading, readAt_of_none hreading']
    exact ⟨⟨rfl, hs⟩, h.record hab hs⟩

end Memory.Paired

/-- Empty memories have no stamps to pair. -/
lemma Memory.paired_none {F : Selector → Prop} : Memory.empty.Paired F .none Memory.empty :=
  ⟨False.elim, False.elim, Memory.holds_empty⟩

/-- In one memory, every known stamp is paired with itself. -/
lemma Memory.paired_same {F : Selector → Prop} {m : Memory} (h : m.Holds F) :
    m.Paired F (.same m.readings.size) m := by
  refine ⟨?_, ?_, h⟩
  · rintro a b ⟨rfl, ha⟩
    exact ⟨ha, ha⟩
  · rintro a b ⟨rfl, -⟩ text
    rfl

end Stylesheet
