import Stylesheet.Proofs.Lockstep

/-!
# Stamps are only names

A stamp tells a block from others and nothing else. If stamps are exchanged for others, each for one of
its own, and the readings in the memory go along with them, then a run takes the same steps and new
blocks get corresponding stamps (`Lockstep.renamed`). Unlike for selectors that are told apart,
nothing is asked of the texts of selectors: the two memories hold the same readings.
-/

namespace Stylesheet

/-- The second memory holds, under the stamps that `f` gives, the readings of the first one. -/
structure Memory.Renamed (f : Nat → Nat) (m m' : Memory) : Prop where
  /-- The stamps drawn later correspond. -/
  later : ∀ count, f (m.readings.size + count) = m'.readings.size + count
  /-- Corresponding blocks have the same readings. -/
  readings : ∀ stamp, m'.readings[f stamp]? = m.readings[stamp]?

namespace Memory.Renamed

variable {f : Nat → Nat} {m m' : Memory}

/-- Corresponding blocks read a text in the same way. -/
lemma reading?_eq (h : m.Renamed f m') (stamp : Nat) (text : String) :
    m'.reading? (f stamp) text = m.reading? stamp text := by
  rw [Memory.reading?, Memory.reading?, h.readings]

/-- Both memories get a new block. -/
lemma fresh (hf : f.Injective) (h : m.Renamed f m') : m.fresh.2.Renamed f m'.fresh.2 := by
  have hsize : f m.readings.size = m'.readings.size := h.later 0
  refine ⟨fun count => ?_, fun stamp => ?_⟩
  · simp only [Memory.fresh, Array.size_push]
    rw [Nat.add_assoc, Nat.add_assoc, h.later]
  · have hsame : f stamp = m'.readings.size ↔ stamp = m.readings.size := by
      rw [← hsize]
      exact hf.eq_iff
    simp only [Memory.fresh, Array.getElem?_push, hsame, h.readings]

/-- Both memories fix the reading of a text. -/
lemma record (hf : f.Injective) (h : m.Renamed f m') (stamp : Nat) (text : String) (s : Selector) :
    (m.record stamp text s).Renamed f (m'.record (f stamp) text s) := by
  refine ⟨fun count => ?_, fun other => ?_⟩
  · simp only [Memory.record, Array.size_modify]
    exact h.later count
  · simp only [Memory.record, Array.getElem?_modify, hf.eq_iff, h.readings]

/-- Corresponding blocks read a selector as the same one. -/
lemma readAt (hf : f.Injective) (h : m.Renamed f m') (stamp : Nat) (s : Selector) :
    ((readAt (f stamp) s).run m').1 = ((readAt stamp s).run m).1 ∧
      ((readAt stamp s).run m).2.Renamed f ((readAt (f stamp) s).run m').2 := by
  have hsame := h.reading?_eq stamp s.toCss
  cases hreading : m.reading? stamp s.toCss with
  | some first =>
    rw [readAt_of_some hreading, readAt_of_some (hsame.trans hreading)]
    exact ⟨rfl, h⟩
  | none =>
    rw [readAt_of_none hreading, readAt_of_none (hsame.trans hreading)]
    exact ⟨rfl, h.record hf stamp s.toCss s⟩

end Memory.Renamed

/-- Two runs that differ in stamps only. -/
def Lockstep.renamed (f : Nat → Nat) (hf : f.Injective) : Lockstep :=
  .ofStamps (Memory.Renamed f) (fun _ => False) (fun a b => b = f a)
    (fun hm => ⟨(hm.later 0).symm, hm.fresh hf⟩)
    (by
      rintro a _ m m' s rfl hm
      exact hm.readAt hf a s)

end Stylesheet
