import Stylesheet.Lookup.Memory

/-!
# Finding blocks by selector

A selector names the blocks among the rules of a frame that have a selector beginning with the same
element. A selector of several elements goes one level deeper for each: `#a > .b` names the blocks
`.b` directly inside blocks `#a`, and how the elements are combined plays no part.

A name is looked up from the innermost frame of the scope outward. The first frame that has any
match decides, and all of its matches count, in document order.
-/

namespace Stylesheet

/-- A block that a selector names, with the blocks that the search went through to reach it. -/
structure Match where
  /-- The block named. -/
  block : Block
  /-- The blocks around it inside the frame that was searched, outermost first. -/
  enclosing : List Block

/-- Whether a selector names the block, as far as its first element goes. -/
def Block.answersTo (b : Block) (s : Selector) : Bool :=
  b.selectors.any fun own => own.agrees s

/-- The match as seen from one block further out. -/
def Match.within (outer : Block) (found : Match) : Match :=
  { found with enclosing := outer :: found.enclosing }

mutual

/-- The blocks inside a block that a selector names, under the reading of its text there. -/
def Block.find : Block → Selector → StateM Memory (List Match)
  | ⟨stamp, _, rules, _⟩, s => do
    let s ← readAt stamp s
    Block.findAmong rules s
termination_by structural b => b

/-- The blocks among rules, and below them, that a selector names. -/
def Block.findAmong : List Node → Selector → StateM Memory (List Match)
  | [], _ => return []
  | .block child :: rest, s => do
    let here ←
      if child.answersTo s then
        match s.tail? with
        | some tail => List.map (Match.within child) <$> child.find tail
        | none => pure [⟨child, []⟩]
      else pure []
    let others ← Block.findAmong rest s
    return here ++ others
  | _ :: rest, s => Block.findAmong rest s
termination_by structural rules => rules

end

/-- Whether a call can use the block: only a definition takes arguments. -/
def Match.accepts (found : Match) (withArgs : Bool) : Bool :=
  !withArgs || found.block.isDefinition

/-- The matches of the innermost frame that has any. -/
def resolve (s : Selector) (withArgs : Bool) : Scope → StateM Memory (List Match)
  | [] => return []
  | frame :: outer => do
    let found := (← frame.find s).filter fun candidate => candidate.accepts withArgs
    if found.isEmpty then resolve s withArgs outer else return found

end Stylesheet
