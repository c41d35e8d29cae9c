import Stylesheet.Lookup.Search
import Stylesheet.Proofs.Anatomy
import Stylesheet.Proofs.Outcome

/-!
# Searches stay inside the scope

What a search finds is a block of the tree that was searched, whatever the memory holds: a reading
changes which blocks are found, never what is looked through. So a property that passes from a block
to the blocks among its rules passes from a frame to everything found in it (`Block.find_all`), and
from a scope to everything that a selector names there (`resolve_all`).
-/

namespace Stylesheet

/-- The matches of a selector in one child of the block that is searched. -/
def Block.findHere (child : Block) (s : Selector) : StateM Memory (List Match) :=
  if child.answersTo s then
    match s.tail? with
    | some tail => List.map (Match.within child) <$> child.find tail
    | none => pure [⟨child, []⟩]
  else pure []

/-- A child is searched before the rules after it. -/
lemma Block.findAmong_block (child : Block) (rest : List Node) (s : Selector) :
    Block.findAmong (.block child :: rest) s = do
      let here ← child.findHere s
      let others ← Block.findAmong rest s
      return here ++ others := by
  rw [Block.findAmong, Block.findHere]
  split
  · cases s.tail? <;> rfl
  · rfl

/-- Rules that are no blocks are passed over. -/
lemma Block.findAmong_of_not_block {r : Node} (h : r.shape.isBlock = false) (rest : List Node)
    (s : Selector) : Block.findAmong (r :: rest) s = Block.findAmong rest s := by
  cases r with
  | block child => cases h
  | _ => rw [Block.findAmong]; simp

/-- A property of blocks holds of the block found and of those that the search went through. -/
structure Match.All (Q : Block → Prop) (found : Match) : Prop where
  /-- It holds of the block found. -/
  block : Q found.block
  /-- It holds of the blocks around it. -/
  enclosing : ∀ e ∈ found.enclosing, Q e

variable {Q : Block → Prop}

/-- A block around a match has the property if the match and the block have it. -/
lemma Match.All.within {outer : Block} {found : Match} (h : found.All Q) (houter : Q outer) :
    (found.within outer).All Q := by
  refine ⟨h.block, ?_⟩
  intro e he
  rcases List.mem_cons.mp he with rfl | he
  · exact houter
  · exact h.enclosing e he

/-- All that is found in a child has the property, if the child has it and all that is found inside it
does. -/
lemma Block.findHere_all {child : Block} (hchild : Q child)
    (hfind : ∀ s, Always (child.find s) fun found => ∀ f ∈ found, f.All Q) (s : Selector) :
    Always (child.findHere s) fun found => ∀ f ∈ found, f.All Q := by
  unfold Block.findHere
  split
  · split
    · next tail _ =>
      refine (hfind tail).map fun found hfound => ?_
      intro f hf
      obtain ⟨inner, hinner, rfl⟩ := List.mem_map.mp hf
      exact (hfound inner hinner).within hchild
    · refine .pure ?_
      intro f hf
      rw [List.mem_singleton.mp hf]
      exact ⟨hchild, by simp⟩
  · exact .pure (by simp)

/-- All that is found among rules has the property. -/
lemma Block.findAmong_all {rules : List Node} (hrules : ∀ c, Node.block c ∈ rules → Q c)
    (hfind : ∀ c, Node.block c ∈ rules → ∀ s, Always (c.find s) fun found => ∀ f ∈ found, f.All Q)
    (s : Selector) : Always (Block.findAmong rules s) fun found => ∀ f ∈ found, f.All Q := by
  induction rules with
  | nil =>
    rw [Block.findAmong]
    exact .pure (by simp)
  | cons r rest ih =>
    have hrest := ih (fun c hc => hrules c (List.mem_cons_of_mem r hc))
      (fun c hc => hfind c (List.mem_cons_of_mem r hc))
    cases r with
    | block child =>
      rw [Block.findAmong_block]
      refine (Block.findHere_all (hrules child List.mem_cons_self)
        (hfind child List.mem_cons_self) s).bind fun here hhere => ?_
      refine hrest.bind fun others hothers => .pure ?_
      intro f hf
      rcases List.mem_append.mp hf with hf | hf
      · exact hhere f hf
      · exact hothers f hf
    | _ =>
      rw [Block.findAmong_of_not_block rfl]
      exact hrest

/-- What passes from a block to the blocks among its rules holds of everything that a search in the
block finds. -/
theorem Block.find_all (hQ : ∀ b c, Q b → Node.block c ∈ b.rules → Q c) (b : Block) (hb : Q b)
    (s : Selector) : Always (b.find s) fun found => ∀ f ∈ found, f.All Q := by
  have key : (∀ n : Node, ∀ b, n = .block b → Q b → ∀ s,
      Always (b.find s) fun found => ∀ f ∈ found, f.All Q) ∧
      ∀ b : Block, Q b → ∀ s, Always (b.find s) fun found => ∀ f ∈ found, f.All Q := by
    refine Node.joint_induction ?_ ?_
    · intro n _ hblock b hb
      exact hblock b hb
    · intro b hrules _ _ hb s
      obtain ⟨stamp, selectors, rules, kind⟩ := b
      rw [Block.find]
      refine (Always.trivial _).bind fun s _ => ?_
      refine Block.findAmong_all (fun c hc => hQ _ c hb hc) ?_ s
      intro c hc
      exact hrules _ hc c rfl (hQ _ c hb hc)
  exact key.2 b hb s

/-- The same for a search through a scope. -/
theorem resolve_all (hQ : ∀ b c, Q b → Node.block c ∈ b.rules → Q c) (s : Selector) (withArgs : Bool)
    {scope : Scope} (hscope : ∀ b ∈ scope, Q b) :
    Always (resolve s withArgs scope) fun found => ∀ f ∈ found, f.All Q := by
  induction scope with
  | nil => exact .pure (by simp)
  | cons frame outer ih =>
    rw [resolve]
    refine (Block.find_all hQ frame (hscope frame List.mem_cons_self) s).bind fun found hfound => ?_
    dsimp only
    split
    · exact ih fun b hb => hscope b (List.mem_cons_of_mem frame hb)
    · refine .pure ?_
      intro f hf
      exact hfound f (List.mem_filter.mp hf).1

end Stylesheet
