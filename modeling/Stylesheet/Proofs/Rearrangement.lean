import Stylesheet.Proofs.Agreement
import Stylesheet.Proofs.Inclusion

/-!
# The place of variables and definitions has no meaning

A style sheet may be rearranged: two neighbours among the rules of a block change places, where one is a
variable and the other is a comment, a block or the declaration of another name, or where one is a mixin
definition and the other is a declaration or a comment.

* Rearranged trees are alike (`Block.Rearranged.alike`), and alike trees are rendered to one text: of two
  rules that are exchanged one prints nothing.
* **Rearranged style sheets compile alike** (`Compiler.compileTree_rearranged`), in trees in which
  neither blocks nor mixin calls are values and only plain selectors are looked up.
-/

namespace Stylesheet

/-! ## Rearranged trees

Exchanges may be made one after another, in any blocks. Each of them keeps the grammar and can be taken
back, so it is enough to prove one direction for one exchange. -/

/-- Two trees that differ by one exchange, in the block itself or in a block inside it. -/
inductive Block.Rearranged : Block → Block → Prop
  | here {stamp : Nat} {selectors : List Selector} {rules rules' : List Node} {kind : BlockKind}
      (h : Swapped Node.Exchanges rules rules') :
      Block.Rearranged ⟨stamp, selectors, rules, kind⟩ ⟨stamp, selectors, rules', kind⟩
  | inside {stamp : Nat} {selectors : List Selector} {before after : List Node} {c c' : Block}
      {kind : BlockKind} (h : Block.Rearranged c c') :
      Block.Rearranged ⟨stamp, selectors, before ++ .block c :: after, kind⟩
        ⟨stamp, selectors, before ++ .block c' :: after, kind⟩

namespace Block.Rearranged

variable {b b' : Block}

/-- An exchange can be taken back. -/
lemma symm (h : b.Rearranged b') : b'.Rearranged b := by
  induction h with
  | here h => exact .here (h.symm fun _ _ => Node.Exchanges.symm)
  | inside _ ih => exact .inside ih

/-- Rearranged trees are alike. -/
lemma alike (h : b.Rearranged b') : b.Alike (.loose True) b' := by
  have hsame : ∀ rules, List.Forall₂ (Node.Alike (.loose True)) rules rules :=
    Node.forall₂_alike_refl fun _ => trivial
  induction h with
  | @here stamp selectors rules rules' kind h =>
    have hswapped : Swapped (Variation.loose True).Exchanges rules rules' := by
      obtain ⟨before, after, h⟩ := h
      exact .intro before after ⟨trivial, h⟩
    exact ((alike_refl fun _ => trivial).2 ⟨stamp, selectors, rules, kind⟩).with_rules trivial
      ⟨rules', .of_swapped hswapped, .of_forall₂ (hsame rules')⟩
  | @inside stamp selectors before after c c' kind _ ih =>
    exact ((alike_refl fun _ => trivial).2 ⟨stamp, selectors, before ++ .block c :: after, kind⟩).with_rules
      trivial (.of_forall₂ (List.rel_append (hsame before) (.cons (.block ih) (hsame after))))

/-- One rule in the place of another. -/
lemma forall_mem_replace {P : Node → Prop} {before after : List Node} {r r' : Node}
    (h : ∀ s ∈ before ++ r :: after, P s) (hr : P r → P r') : ∀ s ∈ before ++ r' :: after, P s := by
  intro s hs
  rcases List.mem_append.mp hs with hs | hs
  · exact h s (List.mem_append_left _ hs)
  · rcases List.mem_cons.mp hs with rfl | hs
    · exact hr (h r (by simp))
    · exact h s (List.mem_append_right _ (List.mem_cons_of_mem _ hs))

/-- A rearranged tree keeps to its grammar. -/
lemma conforms {g : Grammar} (h : b.Rearranged b') (hb : b.Conforms g) : b'.Conforms g := by
  induction h with
  | here h => exact hb.of_rules rfl fun r hr => hb.of_mem_rules (h.perm.mem_iff.mpr hr)
  | @inside _ _ before after c c' _ h ih =>
    refine hb.of_rules rfl (forall_mem_replace (fun r hr => hb.of_mem_rules hr) fun hc => ?_)
    refine .block ?_ (ih hc.of_block)
    rw [h.alike.isRoot]
    exact hc.allowed

end Block.Rearranged

/-- Neither blocks nor mixin calls as values; only plain selectors in calls and accessors. -/
def Grammar.clear : Grammar where
  allows p
    | .block _ => p = .rule
    | .mixin s => p = .rule ∧ s.Plain
    | .accessor s => s.Plain
    | _ => True
  text _ := trivial
  number _ := trivial
  color _ := trivial
  declaration := trivial
  rule_of_value := by
    intro s hs
    cases s with
    | block => rfl
    | mixin => exact ⟨rfl, hs.2⟩
    | accessor => exact hs
    | _ => trivial

/-- Only plain selectors are looked up. -/
lemma Grammar.plain_of_clear {s : Selector} (h : Grammar.clear.LooksUp s) : s.Plain := by
  obtain ⟨p, h | h⟩ := h
  · exact h
  · exact h.2

/-- A clear tree is one in which only plain selectors are looked up. -/
lemma Block.Conforms.lookingUp_plain {b : Block} (h : b.Conforms .clear) :
    b.Conforms (.lookingUp Selector.Plain) := by
  refine (conforms_mono fun p s hs => ?_).2 b h
  cases s with
  | mixin => exact hs.2
  | accessor => exact hs
  | _ => trivial

/-- Exchanges one after another keep a tree in its grammar. -/
lemma Block.Conforms.rearranged {g : Grammar} {b b' : Block} (h : b.Conforms g)
    (hb : Relation.ReflTransGen Block.Rearranged b b') : b'.Conforms g := by
  induction hb with
  | refl => exact h
  | tail _ hstep ih => exact hstep.conforms ih

section compiling

variable {imports : List (String × Block)} {root root' : Block}
  (himports : ∀ path tree, (path, tree) ∈ imports → tree.Conforms .clear)
  (hroot : root.Conforms .clear)

include himports hroot

/-- One exchange. -/
lemma Compiler.compileTree_of_rearranged (h : root.Rearranged root') {o : Options} {css : String}
    (hcss : Compiler.compileTree ⟨o, imports⟩ root = .ok css) :
    Compiler.compileTree ⟨o, imports⟩ root' = .ok css := by
  have htrees : ∀ {b : Block}, b.Conforms .clear → Compiler.compileTree ⟨o, imports⟩ b =
      (outcome (Compiler.compile ⟨o, imports⟩ b) Memory.empty.fresh.2).1 := fun hb =>
    Compiler.compileTree_eq_of_toldApart Selector.toldApart_plain (fun _ _ hs ht => hs.tail ht)
      (fun path tree hmem => (himports path tree hmem).lookingUp_plain) hb.lookingUp_plain o
  rw [htrees hroot] at hcss
  rw [htrees (h.conforms hroot)]
  let L := Lockstep.toldApart Selector.toldApart_plain (fun _ _ hs ht => hs.tail ht)
    Grammar.plain_of_clear True
  have hrender : L.InStep () (fun _ => Eq) (Compiler.compile ⟨o, imports⟩ root)
      (Compiler.compile ⟨o, imports⟩ root') :=
    Block.render_inStep L (.inl rfl) (Lockstep.environments_toldApart _) (Compiler.env_serves himports o)
      (by simp [Scope.Conforms]) .nil [] hroot h.alike
  have hholds : Memory.empty.fresh.2.Holds Selector.Plain := Memory.holds_empty.fresh
  obtain ⟨_, _, n', -, hrun, rfl, -⟩ := hrender.of_ok ⟨hholds, hholds⟩ (Prod.ext hcss rfl)
  exact congrArg Prod.fst hrun

/-- **Variables and mixin definitions may stand anywhere in their block.** A tree from which another one
is made by exchanges compiles exactly if that one does, and to the same text. -/
theorem Compiler.compileTree_rearranged (h : Relation.ReflTransGen Block.Rearranged root root')
    (o : Options) (css : String) :
    Compiler.compileTree ⟨o, imports⟩ root = .ok css ↔
      Compiler.compileTree ⟨o, imports⟩ root' = .ok css := by
  induction h with
  | refl => exact Iff.rfl
  | @tail mid root' hmid hstep ih =>
    have hclear : mid.Conforms .clear := hroot.rearranged hmid
    refine ih.trans ⟨?_, ?_⟩
    · exact Compiler.compileTree_of_rearranged himports hclear hstep
    · exact Compiler.compileTree_of_rearranged himports (hstep.conforms hclear) hstep.symm

end compiling

/-- An import, and a block with rules in some order that ends in a mixin call. -/
def Block.arrangedSample (rules : List Node) : Block :=
  ⟨0, [], [.atImport "p", .block ⟨0, [⟨[⟨.descendant, "a"⟩]⟩],
    rules ++ [.mixin ⟨⟨[⟨.descendant, ".n"⟩]⟩, []⟩], .plain⟩], .root⟩

/-- The declaration of a variable. -/
def Node.variableSample : Node :=
  .declaration (.plain "@c" (.text "red"))

/-- A property that reads the variable. -/
def Node.propertySample : Node :=
  .declaration (.plain "color" (.var "@c"))

/-- A mixin definition that reads the variable. -/
def Node.definitionSample : Node :=
  .block ⟨0, [⟨[⟨.descendant, ".n"⟩]⟩], [.declaration (.plain "top" (.var "@c"))], .definition []⟩

/-- An exchange of two of the rules. -/
lemma Block.arrangedSample_rearranged {rules rules' : List Node}
    (h : Swapped Node.Exchanges rules rules') :
    (Block.arrangedSample rules).Rearranged (Block.arrangedSample rules') :=
  @Block.Rearranged.inside 0 [] [.atImport "p"] [] _ _ .root (.here (h.append_right _))

/-- The only selector that is looked up is plain. -/
lemma Block.arrangedSample_conforms :
    (Block.arrangedSample
      [.propertySample, .variableSample, .definitionSample, .comment "/* n */"]).Conforms .clear := by
  have hplain : (⟨[⟨.descendant, ".n"⟩]⟩ : Selector).Plain := ⟨⟨".n", by cbv⟩, by simp⟩
  refine .without_params rfl ?_
  simp only [arrangedSample, List.mem_cons, List.not_mem_nil, or_false, forall_eq_or_imp, forall_eq]
  refine ⟨.atImport trivial, .block rfl (.without_params rfl ?_)⟩
  simp only [List.cons_append, List.nil_append, List.mem_cons, List.not_mem_nil, or_false,
    forall_eq_or_imp, forall_eq]
  refine ⟨.declaration trivial (.var trivial _), .declaration trivial (.text _), ?_,
    .intro trivial (by simp [Node.values]) (by simp),
    .intro ⟨rfl, hplain⟩ (by simp [Node.values]) (by simp)⟩
  refine .block rfl (.intro ?_ (by simp [Block.defaults, BlockKind.params?])
    (by simp [Block.captures, BlockKind.closure?]))
  simp only [List.mem_singleton, forall_eq]
  exact .declaration trivial (.var trivial _)

/-- Nothing is looked up in what is imported. -/
lemma Block.importedSample_clear : (Block.importedSample 0 0).Conforms .clear := by
  refine .without_params rfl ?_
  simp only [importedSample, List.mem_cons, List.not_mem_nil, or_false, forall_eq_or_imp, forall_eq]
  refine ⟨.declaration trivial (.text _), .block rfl (.without_params rfl ?_)⟩
  simp only [List.mem_singleton, forall_eq]
  exact .declaration trivial (.var trivial _)

/-- The variable goes before the property that reads it, and the definition behind the comment. -/
theorem Compiler.compileTree_rearranged_arrangedSample :
    let root := Block.arrangedSample
      [.propertySample, .variableSample, .definitionSample, .comment "/* n */"]
    let root' := Block.arrangedSample
      [.variableSample, .propertySample, .comment "/* n */", .definitionSample]
    let imports := [("p", Block.importedSample 0 0)]
    let css := ".m \x7b\n  width: wide;\n\x7d\na \x7b\n  color: red;\n  /* n */\n  top: red;\n\x7d\n"
    (∀ path tree, (path, tree) ∈ imports → tree.Conforms .clear) ∧ root.Conforms .clear ∧
      Relation.ReflTransGen Block.Rearranged root root' ∧
      Compiler.compileTree ⟨{}, imports⟩ root = .ok css ∧
      Compiler.compileTree ⟨{}, imports⟩ root' = .ok css := by
  intro root root' imports css
  have hcss : Compiler.compileTree ⟨{}, imports⟩ root = .ok css := by decide +kernel
  have himports : ∀ path tree, (path, tree) ∈ imports → tree.Conforms .clear := by
    intro path tree hmem
    simp only [imports, List.mem_singleton, Prod.mk.injEq] at hmem
    rw [hmem.2]
    exact Block.importedSample_clear
  have hvariable : Swapped Node.Exchanges
      [.propertySample, .variableSample, .definitionSample, .comment "/* n */"]
      [.variableSample, .propertySample, .definitionSample, .comment "/* n */"] :=
    .intro [] _ (.inr (.variableDeclaration rfl (by decide)))
  have hdefinition : Swapped Node.Exchanges
      [.variableSample, .propertySample, .definitionSample, .comment "/* n */"]
      [.variableSample, .propertySample, .comment "/* n */", .definitionSample] :=
    .intro [Node.variableSample, Node.propertySample] [] (Or.inl .definitionComment)
  have hrearranged : Relation.ReflTransGen Block.Rearranged root root' :=
    .tail (.single (Block.arrangedSample_rearranged hvariable))
      (Block.arrangedSample_rearranged hdefinition)
  have hclear : root.Conforms .clear := Block.arrangedSample_conforms
  exact ⟨himports, hclear, hrearranged, hcss,
    (Compiler.compileTree_rearranged himports hclear hrearranged {} css).mp hcss⟩

end Stylesheet
