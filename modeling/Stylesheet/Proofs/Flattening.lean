import Stylesheet.Proofs.EvaluateFirst

/-!
# Flattening

Rendering a tree in which nothing is left to evaluate only rearranges it: nested blocks become flat ones,
and every line finds its place once. This file says which text that is, by a walk through the tree that
is written without pieces, scopes or evaluation (`Block.flatText`), and proves that it is what a root
renders as (`Block.toCss_eq_flatText`).

* `Block.lineRules`: the rules of a block that print as its own lines.
* `Node.placed`: the blocks under a rule that are printed, in document order, each with the selector
  groups from the outermost block down to it. Mixin definitions and all that is in them are left out.
* `Block.flatText`: the lines of the root, and then, in document order, its comments and the placed
  blocks, each under the header of its groups.

Nothing is asked of what is inside mixin definitions.
-/

namespace Stylesheet

/-! ## The flat text of a tree

The specification. Each block is printed by itself, under the header of all groups around it, and the
blocks inside it are printed behind it. A line belongs to the block it stands in and to no other. -/

/-- Whether a rule is a line of the block that it stands in. Comments are lines of all blocks but the
root. -/
def Node.isLineIn (isRoot : Bool) : Node → Bool
  | .block _ => false
  | .declaration d => !d.isVariable
  | .comment _ => !isRoot
  | _ => true

/-- The text of a rule that can be printed by itself. -/
def Node.lineText (r : Node) : String :=
  r.toCss.toOption.getD ""

/-- The rules of a block that are its own lines. -/
def Block.lineRules (b : Block) : List Node :=
  b.rules.filter (Node.isLineIn b.isRoot)

/-- The lines of a block. -/
def Block.lines (b : Block) : List String :=
  b.lineRules.map Node.lineText

/-- A block with the selector groups from the outermost block down to it. -/
structure PlacedBlock where
  /-- The selector groups, its own last. -/
  groups : List (List Selector)
  /-- The block. -/
  block : Block

mutual

/-- The blocks under a rule that are printed, each before those inside it. The rule stands inside blocks
with the groups `around`. -/
def Node.placed (around : List (List Selector)) : Node → List PlacedBlock
  | .block ⟨stamp, selectors, rules, kind⟩ =>
    if kind.params?.isSome then []
    else ⟨around ++ [selectors], ⟨stamp, selectors, rules, kind⟩⟩ ::
      Node.placedAll (around ++ [selectors]) rules
  | _ => []

/-- The blocks under several rules that are printed. -/
def Node.placedAll (around : List (List Selector)) : List Node → List PlacedBlock
  | [] => []
  | r :: rest => r.placed around ++ Node.placedAll around rest

end

/-- The text of a block by itself: its lines under the header of its groups. A block without lines has
no text. -/
def PlacedBlock.text (p : PlacedBlock) : String :=
  if p.block.lines.isEmpty then ""
  else Path.header (p.groups.foldl Path.combine []) ++ " \x7b\n" ++
    String.join (p.block.lines.map fun line => "  " ++ line ++ "\n") ++ "\x7d\n"

/-- What a rule of the root adds after the lines of the root. -/
def Node.walkText : Node → String
  | .comment value => value ++ "\n"
  | r => String.join ((r.placed []).map PlacedBlock.text)

/-- The text of a root: its lines, and then its comments and the placed blocks in document order. -/
def Block.flatText (b : Block) : String :=
  String.join (b.lines.map fun line => line ++ "\n") ++ String.join (b.rules.map Node.walkText)

/-- A rule below the root in evaluated form: nothing is left to evaluate outside mixin definitions, no
value is a block, and no block is a root. -/
inductive Node.Flattens : Node → Prop
  | line {r : Node} (h : r.Legible) : Node.Flattens r
  | definition {b : Block} (h : b.isDefinition = true) : Node.Flattens (.block b)
  | block {b : Block} (hkind : b.kind = .plain) (rules : ∀ r ∈ b.rules, Node.Flattens r) :
      Node.Flattens (.block b)

/-! ## Lines -/

namespace Node.Legible

variable {n : Node}

/-- A call is not legible. -/
lemma isMixin_eq_false (h : n.Legible) : n.shape.isMixin = false := by
  have := h.notPending
  cases n with
  | mixin => cases this
  | _ => rfl

/-- A legible node is printed, and its text is that of its line. -/
lemma toCss_eq (h : n.Legible) : n.toCss = .ok n.lineText := by
  obtain ⟨text, htext⟩ := h.exists_toCss
  rw [Node.lineText, htext]
  rfl

end Node.Legible

/-- No call is left in evaluated form. -/
lemma Node.Flattens.isMixin_eq_false {r : Node} (h : r.Flattens) : r.shape.isMixin = false := by
  cases h with
  | line h => exact h.isMixin_eq_false
  | definition | block => rfl

/-! ## The walk -/

/-- Blocks are placed rule by rule. -/
lemma Node.placedAll_eq_flatMap (around : List (List Selector)) (rules : List Node) :
    Node.placedAll around rules = rules.flatMap (Node.placed around) := by
  induction rules with
  | nil => rw [Node.placedAll, List.flatMap_nil]
  | cons r rules ih => rw [Node.placedAll, ih, List.flatMap_cons]

/-- A definition places nothing, and neither does anything inside it. -/
lemma Node.placed_definition {b : Block} (h : b.isDefinition = true)
    (around : List (List Selector)) : (Node.block b).placed around = [] := by
  obtain ⟨stamp, selectors, rules, kind⟩ := b
  have hkind : kind.params?.isSome = true := h
  rw [Node.placed, if_pos hkind]

/-- Any other block is placed before the blocks inside it, which stand under its selectors as well. -/
lemma Node.placed_block {b : Block} (h : b.isDefinition = false) (around : List (List Selector)) :
    (Node.block b).placed around =
      ⟨around ++ [b.selectors], b⟩ :: b.rules.flatMap (Node.placed (around ++ [b.selectors])) := by
  obtain ⟨stamp, selectors, rules, kind⟩ := b
  have hkind : ¬kind.params?.isSome = true := by
    rw [Bool.not_eq_true]
    exact h
  rw [Node.placed, if_neg hkind, Node.placedAll_eq_flatMap]

/-- The text of all placed blocks under a rule. -/
def Node.placedText (around : List (List Selector)) (r : Node) : String :=
  String.join ((r.placed around).map PlacedBlock.text)

/-- A block is followed by what is nested in it. -/
lemma Node.placedText_block {b : Block} (h : b.isDefinition = false) (around : List (List Selector)) :
    (Node.block b).placedText around = PlacedBlock.text ⟨around ++ [b.selectors], b⟩ ++
      String.join (b.rules.map (Node.placedText (around ++ [b.selectors]))) := by
  rw [Node.placedText, Node.placed_block h, ← String.toList_inj]
  simp [Node.placedText, List.flatMap_assoc, List.map_flatMap, List.flatMap_map]

/-! ## Pieces

Rendering makes a piece of each rule, a line or the text of what is nested, and assembles the pieces of a
block at the end. `Node.flatPiece` says which piece that is, in terms of the walk. -/

/-- What a rule in evaluated form adds to the text of the block that it stands in. -/
def Node.flatPiece (around : List (List Selector)) (isRoot : Bool) : Node → Piece
  | .block b =>
    if b.isDefinition then .nothing else .nested ((Node.block b).placedText around)
  | .comment value => if isRoot then .nested (value ++ "\n") else .line value
  | .declaration d => if d.isVariable then .nothing else .line (Node.declaration d).lineText
  | r => .line r.lineText

/-- A rule adds a line exactly if it is one in that block. -/
lemma Node.line?_flatPiece (around : List (List Selector)) (isRoot : Bool) (r : Node) :
    (r.flatPiece around isRoot).line? = if r.isLineIn isRoot then some r.lineText else none := by
  cases r with
  | block b =>
    rw [Node.flatPiece]
    split <;> rfl
  | comment value => cases isRoot <;> rfl
  | declaration d =>
    rw [Node.flatPiece, Node.isLineIn]
    cases d.isVariable <;> rfl
  | _ => rfl

/-- Below the root, a rule adds the texts of the blocks that are placed under it. -/
lemma Node.nested?_flatPiece (around : List (List Selector)) (r : Node) :
    (r.flatPiece around false).nested?.getD "" = r.placedText around := by
  cases r with
  | block b =>
    rw [Node.flatPiece]
    split
    · next hdef =>
      rw [Node.placedText, Node.placed_definition hdef]
      rfl
    · rfl
  | declaration d =>
    rw [Node.flatPiece, Node.placedText, Node.placed]
    · split <;> rfl
    · exact nofun
  | _ => rfl

/-- In the root, comments come between these texts. -/
lemma Node.nested?_flatPiece_root (r : Node) :
    (r.flatPiece [] true).nested?.getD "" = r.walkText := by
  cases r with
  | comment value => rfl
  | block b => exact (Node.block b).nested?_flatPiece []
  | declaration d => exact (Node.declaration d).nested?_flatPiece []
  | _ => rfl

/-- The lines among the pieces of a block. -/
lemma Block.filterMap_line?_flatPiece (around : List (List Selector)) (b : Block) :
    (b.rules.map (Node.flatPiece around b.isRoot)).filterMap Piece.line? = b.lines := by
  rw [List.filterMap_map, Block.lines, Block.lineRules]
  induction b.rules with
  | nil => rfl
  | cons r rules ih =>
    rw [List.filterMap_cons, Function.comp_apply, Node.line?_flatPiece, List.filter_cons, ih]
    cases r.isLineIn b.isRoot <;> rfl

/-- Pieces that print nothing after the lines can be left out. -/
lemma join_filterMap_nested? (pieces : List Piece) :
    String.join (pieces.filterMap Piece.nested?) =
      String.join (pieces.map fun piece => piece.nested?.getD "") := by
  induction pieces with
  | nil => rfl
  | cons piece pieces ih =>
    rw [List.map_cons, String.join_cons, ← ih]
    cases piece with
    | nested text => exact String.join_cons
    | line | nothing => exact String.empty_append.symm

/-- Lines under an indentation, joined by line breaks, are the indented lines one by one. -/
lemma intercalate_newline (indent : String) {lines : List String} (hne : lines ≠ []) :
    indent ++ ("\n" ++ indent).intercalate lines ++ "\n" =
      String.join (lines.map fun line => indent ++ line ++ "\n") := by
  induction lines with
  | nil => exact absurd rfl hne
  | cons line lines ih =>
    cases lines with
    | nil => simp
    | cons next lines =>
      rw [List.map_cons, String.join_cons, ← ih (by simp), ← String.toList_inj]
      simp

/-- The lines of a block under their header. -/
lemma PlacedBlock.text_eq (p : PlacedBlock) :
    p.text = Piece.blockText (p.groups.foldl Path.combine []) p.block.lines := by
  rw [PlacedBlock.text, Piece.blockText]
  cases hlines : p.block.lines with
  | nil => rfl
  | cons line lines =>
    have hopen : " \x7b\n  " = " \x7b\n" ++ "  " := by decide
    have hclose : "\n\x7d\n" = "\n" ++ "\x7d\n" := by decide
    have hseparator : "\n  " = "\n" ++ "  " := by decide
    rw [← intercalate_newline "  " (List.cons_ne_nil line lines), hopen, hclose, hseparator]
    simp only [String.append_assoc]

/-- The lines of a root. -/
lemma Block.rootText_lines (b : Block) :
    Piece.rootText b.lines = String.join (b.lines.map fun line => line ++ "\n") := by
  rw [Piece.rootText]
  split
  · next hempty => rw [List.isEmpty_iff.mp hempty]; rfl
  · next hempty =>
    have hne : b.lines ≠ [] := by simpa using hempty
    simpa using intercalate_newline "" hne

/-! ## Rendering -/

section rendering

variable {K : Memory → Prop} {env : Env} {scope : Scope}

/-- A legible rule prints as a line. -/
lemma Node.Legible.gives_line {r : Node} (h : r.Legible) :
    Gives K (fun fuel => Block.renderLine (evaluator fuel) env scope r) (.line r.lineText) := by
  refine (h.gives_self env scope).bind ?_
  rw [h.toCss_eq]
  exact .pure _

/-- A legible rule prints as its piece. -/
lemma Node.Legible.gives_flatPiece {r : Node} (h : r.Legible) (around : List (List Selector))
    (isRoot : Bool) (inner : Nat → Block → EvalM String) :
    Gives K (fun fuel => Block.renderRule (evaluator fuel) (inner fuel) env scope isRoot r)
      (r.flatPiece around isRoot) := by
  cases r with
  | block => cases h.notBlock
  | comment value =>
    cases isRoot with
    | true => exact .pure _
    | false => exact h.gives_line
  | declaration d =>
    cases hvar : d.isVariable with
    | true =>
      simp only [Block.renderRule_variable hvar, Node.flatPiece, hvar]
      exact .pure _
    | false =>
      simp only [Block.renderRule_property hvar, Node.flatPiece, hvar]
      exact h.gives_line
  | _ => exact h.gives_line

/-- Once the rules print as their pieces, the block is assembled from these. -/
lemma Block.gives_assemble {b : Block} (hrules : ∀ r ∈ b.rules, r.Flattens) (context : List Path)
    (around : List (List Selector)) (himport : b.importing? = none)
    (hpaths : around.foldl Path.combine [] = b.innerPaths context)
    (hpieces : ∀ r ∈ b.rules, ∀ scope, Gives K (fun fuel => Block.renderRule (evaluator fuel)
      (Block.render fuel env scope (around.foldl Path.combine [])) env scope b.isRoot r)
        (r.flatPiece around b.isRoot)) :
    Gives K (fun fuel => Block.render fuel env scope context b)
      (Piece.assemble b.isRoot (around.foldl Path.combine [])
        (b.rules.map (Node.flatPiece around b.isRoot))) := by
  refine .of_succ ?_
  have hcalls : ∀ r ∈ b.rules, r.shape.isMixin = false := fun r hr => (hrules r hr).isMixin_eq_false
  simp only [Block.render, Block.renderWith_eq, Block.source_of_importing_eq_none env himport,
    Block.expandCalls_of_no_calls _ env scope hcalls, pure_bind, ← hpaths]
  refine Gives.bind (.mapM (R := Eq) ?_ (List.forall₂_refl _)) (.pure _)
  rw [List.forall₂_map_right_iff]
  refine List.forall₂_same.mpr fun r hr r' hrr' => ?_
  rw [← hrr']
  exact hpieces r hr (b :: scope)

/-- **A rule in evaluated form prints as its piece**, from every memory and in every scope. Lines print by
themselves, definitions and variables print nothing, and a nested block prints as the blocks that are
placed under it. -/
theorem Node.Flattens.gives_flatPiece {r : Node} (h : r.Flattens) (around : List (List Selector))
    (isRoot : Bool) :
    Gives K (fun fuel => Block.renderRule (evaluator fuel)
      (Block.render fuel env scope (around.foldl Path.combine [])) env scope isRoot r)
        (r.flatPiece around isRoot) := by
  induction h generalizing around isRoot scope with
  | line h => exact h.gives_flatPiece around isRoot _
  | definition h =>
    simp only [Block.renderRule_definition h, Node.flatPiece, h]
    exact .pure _
  | @block b hkind hrules ih =>
    have hdef : b.isDefinition = false := by rw [Block.isDefinition, hkind]; rfl
    have hroot : b.isRoot = false := by rw [Block.isRoot, hkind]
    simp only [Block.renderRule_nested hdef, map_eq_pure_bind, Node.flatPiece, hdef]
    refine Gives.bind (a := (Node.block b).placedText around) ?_ (.pure _)
    have hpaths : (around ++ [b.selectors]).foldl Path.combine [] =
        b.innerPaths (around.foldl Path.combine []) := by
      rw [Block.innerPaths, hroot, List.foldl_append]
      rfl
    have himport : b.importing? = none := by
      rw [Block.importing?, hroot]
      rfl
    have hgives : Gives K (fun fuel => Block.render fuel env scope (around.foldl Path.combine []) b) _ :=
      Block.gives_assemble hrules (around.foldl Path.combine []) (around ++ [b.selectors]) himport hpaths
        fun r hr scope => ih r hr (around ++ [b.selectors]) b.isRoot
    rw [Piece.assemble, hroot, join_filterMap_nested?, List.map_map] at hgives
    have hlines := Block.filterMap_line?_flatPiece (around ++ [b.selectors]) b
    rw [hroot] at hlines
    rw [Node.placedText_block hdef, PlacedBlock.text_eq]
    simpa [hlines, Node.nested?_flatPiece, Function.comp_def] using hgives

end rendering

/-- The lines of a block in evaluated form are legible. -/
lemma Block.legible_of_mem_lineRules {b : Block} (h : ∀ r ∈ b.rules, r.Flattens) {l : Node}
    (hl : l ∈ b.lineRules) : l.Legible := by
  obtain ⟨hmem, hline⟩ := List.mem_filter.mp hl
  cases h l hmem with
  | line h => exact h
  | definition | block => cases hline

/-- The lines of placed blocks are legible, since no evaluation is left to do. -/
lemma Node.Flattens.legible_of_placed {r : Node} (h : r.Flattens) {around : List (List Selector)}
    {p : PlacedBlock} (hp : p ∈ r.placed around) : ∀ l ∈ p.block.lineRules, l.Legible := by
  induction h generalizing around with
  | @line r h =>
    have hnil : r.placed around = [] := by
      cases r with
      | block => cases h.notBlock
      | _ => rw [Node.placed]; exact nofun
    rw [hnil] at hp
    cases hp
  | definition h =>
    rw [Node.placed_definition h] at hp
    cases hp
  | @block b hkind hrules ih =>
    have hdef : b.isDefinition = false := by rw [Block.isDefinition, hkind]; rfl
    rw [Node.placed_block hdef] at hp
    rcases List.mem_cons.mp hp with rfl | hp
    · exact fun l hl => Block.legible_of_mem_lineRules hrules hl
    · obtain ⟨r, hr, hp⟩ := List.mem_flatMap.mp hp
      exact ih r hr hp

/-- **Flattening loses and doubles nothing.** Take a root in evaluated form: nothing is left to evaluate
outside mixin definitions, no imports are to be replaced, no value is a block, and no block below is a
root. From every memory, and whatever the environment, it renders as its flat text, which is made of
lines that can all be printed. -/
theorem Block.toCss_eq_flatText {b : Block} (hkind : b.kind = .root)
    (hrules : ∀ r ∈ b.rules, r.Flattens ∧ r.pendingImport? = none) (env : Env) (m : Memory) :
    Yields (fun fuel => b.toCss fuel env) m (.ok b.flatText, m) ∧
      (∀ l ∈ b.lineRules, l.toCss = .ok l.lineText) ∧
      ∀ p ∈ b.rules.flatMap (Node.placed []), ∀ l ∈ p.block.lineRules, l.toCss = .ok l.lineText := by
  have hroot : b.isRoot = true := by rw [Block.isRoot, hkind]
  have hflattens : ∀ r ∈ b.rules, r.Flattens := fun r hr => (hrules r hr).1
  refine ⟨?_, fun l hl => (Block.legible_of_mem_lineRules hflattens hl).toCss_eq, ?_⟩
  · have himport : b.importing? = none := by
      rw [Block.importing?, if_pos hroot, List.findSome?_eq_none_iff]
      exact fun r hr => (hrules r hr).2
    have hpaths : ([] : List (List Selector)).foldl Path.combine [] = b.innerPaths [] := by
      rw [Block.innerPaths, hroot]
      rfl
    have hgives : Gives (· = m) (fun fuel => Block.render fuel env [] [] b) _ :=
      Block.gives_assemble hflattens [] [] himport hpaths
        fun r hr scope => (hflattens r hr).gives_flatPiece [] b.isRoot
    have htext : Piece.assemble b.isRoot [] (b.rules.map (Node.flatPiece [] b.isRoot)) = b.flatText := by
      have hlines := b.filterMap_line?_flatPiece []
      have hnested : ∀ r : Node, (r.flatPiece [] b.isRoot).nested?.getD "" = r.walkText := by
        rw [hroot]
        exact Node.nested?_flatPiece_root
      rw [Piece.assemble, if_pos hroot, join_filterMap_nested?, List.map_map, hlines,
        Block.rootText_lines, Block.flatText]
      simp only [Function.comp_def, hnested]
    obtain ⟨m', hyields, rfl⟩ := hgives m rfl
    rw [← htext]
    exact hyields
  · intro p hp l hl
    obtain ⟨r, hr, hp⟩ := List.mem_flatMap.mp hp
    exact ((hflattens r hr).legible_of_placed hp l hl).toCss_eq

/-- A line of the root behind a block, a comment between blocks, a definition, a variable, and a block
without lines around one that has some. -/
def Block.flatteningSample : Block :=
  .ofRules [
    .block ⟨1, Selector.parseGroup "a, b", [
      .block ⟨2, Selector.parseGroup "i &", [
        .declaration (.plain "color" (.text "red")),
        .comment "/* in */",
        .block ⟨3, Selector.parseGroup ".m", [.mixin ⟨Selector.parse ".n", []⟩], .definition []⟩,
        .declaration (.plain "@w" (.text "1px"))], .plain⟩], .plain⟩,
    .comment "/* between */",
    .atImport "x.css",
    .block ⟨4, Selector.parseGroup "p", [.declaration (.plain "top" (.text "0"))], .plain⟩]

/-- A nested header without lines of its own prints nothing, and the line of the root comes first although
it stands behind a block. -/
theorem Block.toCss_eq_flatText_sample :
    Block.flatteningSample.kind = .root ∧
    (∀ r ∈ Block.flatteningSample.rules, r.Flattens ∧ r.pendingImport? = none) ∧
    Block.flatteningSample.flatText = "@import \"x.css\";\n" ++
      "i a, i b \x7b\n  color: red;\n  /* in */\n\x7d\n" ++ "/* between */\n" ++
      "p \x7b\n  top: 0;\n\x7d\n" ∧
    Yields (fun fuel => Block.flatteningSample.toCss fuel {}) .empty
      (.ok Block.flatteningSample.flatText, .empty) := by
  have hliteral : ∀ {n : Node}, n.isLiteral = true → n.Legible := by
    intro n hn
    refine .intro ?_ ?_ ?_
    · cases n <;> first | rfl | cases hn
    · cases n <;> first | rfl | cases hn
    · rw [Node.values_of_isLiteral hn]
      simp
  have hdeclaration : ∀ name value, (Node.declaration (.plain name (.text value))).Flattens := by
    intro name value
    refine .line (.intro rfl rfl fun k hk => ?_)
    rw [List.mem_singleton.mp hk]
    exact hliteral rfl
  have hrules : ∀ r ∈ Block.flatteningSample.rules, r.Flattens ∧ r.pendingImport? = none := by
    refine List.forall_mem_cons.mpr ⟨⟨.block rfl ?_, rfl⟩, ?_⟩
    · refine List.forall_mem_singleton.mpr (.block rfl ?_)
      refine List.forall_mem_cons.mpr ⟨hdeclaration _ _, ?_⟩
      refine List.forall_mem_cons.mpr ⟨.line (hliteral rfl), ?_⟩
      exact List.forall_mem_cons.mpr ⟨.definition rfl, List.forall_mem_singleton.mpr (hdeclaration _ _)⟩
    · refine List.forall_mem_cons.mpr ⟨⟨.line (hliteral rfl), rfl⟩, ?_⟩
      refine List.forall_mem_cons.mpr ⟨⟨.line (.intro rfl rfl nofun), by decide⟩, ?_⟩
      exact List.forall_mem_singleton.mpr
        ⟨.block rfl (List.forall_mem_singleton.mpr (hdeclaration _ _)), rfl⟩
  exact ⟨rfl, hrules, by decide +kernel, (Block.toCss_eq_flatText rfl hrules {} .empty).1⟩

end Stylesheet
