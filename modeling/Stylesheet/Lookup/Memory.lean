import Stylesheet.Node.Basic

/-!
# What a selector text means in a block

Mixins are looked up by the text of a selector, and two selectors can have one text: `a&b` has two
elements and `ab` has one, and both are printed ` ab`. In each block the first selector that was
looked up under a text fixes the *reading* of that text: from then on every selector with that text
is read as the first one.

`Memory` holds these readings, block by block. A block is told from others by its stamp, and stamps
are drawn from the memory itself, so a new block begins without any readings. The memory outlives a
single evaluation: evaluations that share trees share the readings of their blocks.

Selectors that are told apart by their texts are always read as themselves, whatever the memory
holds of other selectors with other texts.
-/

namespace Stylesheet

/-- The readings of selector texts, for each stamp drawn so far. -/
structure Memory where
  /-- The list at place `n` holds the readings in the block with stamp `n`. -/
  readings : Array (List (String × Selector)) := #[]
  deriving Repr

namespace Memory

/-- The memory before any block is known. -/
def empty : Memory := {}

/-- A stamp that no block has yet, and the memory that knows it. -/
def fresh (m : Memory) : Nat × Memory :=
  (m.readings.size, ⟨m.readings.push []⟩)

/-- How a text is read in the block with the given stamp. -/
def reading? (m : Memory) (stamp : Nat) (text : String) : Option Selector :=
  m.readings[stamp]?.bind fun entries => entries.lookup text

/-- Fixes the reading of a text in a block. -/
def record (m : Memory) (stamp : Nat) (text : String) (s : Selector) : Memory :=
  ⟨m.readings.modify stamp fun entries => (text, s) :: entries⟩

end Memory

/-- Draws a stamp that no block has yet. -/
def freshStamp : StateM Memory Nat :=
  modifyGet Memory.fresh

/-- The selector as it is read in the block with the given stamp. If its text has no reading there
yet, the selector itself becomes the reading. -/
def readAt (stamp : Nat) (s : Selector) : StateM Memory Selector := do
  match (← get).reading? stamp s.toCss with
  | some first => return first
  | none =>
    modify fun m => m.record stamp s.toCss s
    return s

end Stylesheet
