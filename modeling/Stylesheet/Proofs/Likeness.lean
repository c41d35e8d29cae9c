import Stylesheet.Proofs.Faults
import Stylesheet.Proofs.Outcome
import Stylesheet.Proofs.Shuffles

/-!
# Trees that differ in what has no meaning

Two trees can be the same in all that evaluation looks at and still differ: in the stamps of their blocks,
in the order of rules that are independent of each other, in definitions that are never looked up. A
`Variation` says what may differ, and `Block.Alike V` compares two blocks that differ in this at most, at any
depth: among rules, in values, in the defaults of parameters and in what definitions have captured.

* The place of a variable or of a mixin definition among the rules of its block has no meaning, as long as
  it keeps its order to what it can be confused with: a variable to other declarations of its name, a
  definition to other blocks. `Node.Exchanges` says which neighbours may change places.
* Trees in which not even stamps differ are equal (`eq_of_alike`).
* **Alike trees declare the same** (`Block.Alike.lookup`, `Block.Alike.lastNamed`, `Scope.Alike.lookup`).
* **Alike values have one text** (`Node.Alike.toSource`, `Node.Alike.toCss`) and **are computed with
  alike** (`Node.operate_alike`, `Builtin.apply_alike`).
* In a strict grammar, in which no value is a block, alike values are equal (`Node.Alike.eq_of_strict`).
-/

namespace Stylesheet

/-! ## Rules that may change places

Rules are told apart by their roles, and it depends on the roles only which of them may change places.
Imports, calls and values among rules have no role that allows it. -/

/-- Which rules may be moved past which: a variable past all but declarations of the same name, imports,
calls and values among rules; a definition past declarations and comments. -/
inductive Role.MovesPast : Role → Role → Prop
  | variableDeclaration {name other : String} (hvar : name.toList.head? = some '@')
      (hne : name ≠ other) : MovesPast (.declaration name) (.declaration other)
  | variableComment {name : String} (hvar : name.toList.head? = some '@') :
      MovesPast (.declaration name) .comment
  | variableBlock {name : String} (hvar : name.toList.head? = some '@') :
      MovesPast (.declaration name) .block
  | variableDefinition {name : String} (hvar : name.toList.head? = some '@') :
      MovesPast (.declaration name) .definition
  | definitionDeclaration {name : String} : MovesPast .definition (.declaration name)
  | definitionComment : MovesPast .definition .comment

/-- The two rules may change places. -/
def Node.Exchanges (r s : Node) : Prop :=
  r.role.MovesPast s.role ∨ s.role.MovesPast r.role

namespace Node.Exchanges

variable {r s : Node}

/-- What changes places can change them back. -/
lemma symm (h : r.Exchanges s) : s.Exchanges r :=
  Or.symm h

/-- Rules that are exchanged have a role of their own: they are no imports, calls or values. -/
lemma role_ne_other (h : r.Exchanges s) : r.role ≠ .other ∧ s.role ≠ .other := by
  have key : ∀ {p q : Role}, p.MovesPast q → p ≠ .other ∧ q ≠ .other := by
    intro p q h
    cases h <;> exact ⟨nofun, nofun⟩
  rcases h with h | h
  · exact key h
  · exact (key h).symm

/-- Blocks keep their order. -/
lemma not_block (h : r.Exchanges s) : r.shape.isBlock = false ∨ s.shape.isBlock = false := by
  have key : ∀ {r s : Node}, r.role.MovesPast s.role →
      r.shape.isBlock = false ∨ s.shape.isBlock = false := by
    intro r s h
    cases r with
    | block b =>
      cases s with
      | block c =>
        rw [Node.role, Node.role] at h
        split at h <;> split at h <;> cases h
      | _ => exact .inr rfl
    | _ => exact .inl rfl
  rcases h with h | h
  · exact key h
  · exact (key h).symm

/-- Declarations of one name keep their order. -/
lemma name_ne (h : r.Exchanges s) {d e : Declaration} (hd : r.declaration? = some d)
    (he : s.declaration? = some e) : d.name ≠ e.name := by
  cases r with
  | declaration d' =>
    cases s with
    | declaration e' =>
      cases hd
      cases he
      rcases h with h | h
      · cases h with
        | variableDeclaration _ hne => exact hne
      · cases h with
        | variableDeclaration _ hne => exact hne.symm
    | _ => cases he
  | _ => cases hd

end Node.Exchanges

/-! ## Alike trees

One relation for all comparisons of trees. What may differ is a parameter, so that lemmas about the parts
of alike trees, their declarations and their texts are proved once. -/

/-- What may differ between two trees. -/
structure Variation where
  /-- The stamps that a block may have in the one tree and in the other. -/
  stamps : Nat → Nat → Prop
  /-- The roles of neighbours that may change places. -/
  exchanges : Role → Role → Prop
  /-- The selectors of mixin definitions that only the second tree has. -/
  added : List Selector → Prop
  /-- Only independent rules change places. -/
  independent : ∀ {p q}, exchanges p q → p.MovesPast q ∨ q.MovesPast p

namespace Variation

/-- Only stamps may differ. -/
def stampsOnly (stamps : Nat → Nat → Prop) : Variation where
  stamps := stamps
  exchanges _ _ := False
  added _ := False
  independent h := h.elim

/-- The rules may change places under the variation. -/
def Exchanges (V : Variation) (r s : Node) : Prop :=
  V.exchanges r.role s.role

/-- The rule is a definition that the variation may add. -/
def Added (V : Variation) (r : Node) : Prop :=
  ∃ d, r = .block d ∧ d.isDefinition = true ∧ V.added d.selectors

/-- The second variation allows what the first one does. -/
structure Le (V W : Variation) : Prop where
  /-- It relates the same stamps. -/
  stamps : ∀ {a b}, V.stamps a b → W.stamps a b
  /-- It exchanges the same rules. -/
  exchanges : ∀ {p q}, V.exchanges p q → W.exchanges p q
  /-- It adds the same definitions. -/
  added : ∀ {l}, V.added l → W.added l

variable {V : Variation} {r s : Node}

/-- A variation allows what it allows. -/
lemma Le.refl (V : Variation) : V.Le V :=
  ⟨id, id, id⟩

/-- What changes places under a variation is independent. -/
lemma Exchanges.independent (h : V.Exchanges r s) : r.Exchanges s :=
  V.independent h

/-- What may be added may be added under a variation that allows more. -/
lemma Added.mono {W : Variation} (h : V.Added r) (hle : V.Le W) : W.Added r := by
  obtain ⟨d, rfl, hdef, hadded⟩ := h
  exact ⟨d, rfl, hdef, hle.added hadded⟩

/-- A mixin call stays where it is. -/
lemma not_exchanges_mixin (call : MixinCall) (r : Node) :
    ¬V.Exchanges r (.mixin call) ∧ ¬V.Exchanges (.mixin call) r :=
  ⟨fun h => h.independent.role_ne_other.2 rfl, fun h => h.independent.role_ne_other.1 rfl⟩

end Variation

mutual

/-- Two nodes that differ in what the variation allows at most. -/
inductive Node.Alike (V : Variation) : Node → Node → Prop
  | leaf {n : Node} (h : n.isLeaf = true) : Node.Alike V n n
  | expression {items items' : List Node} (h : List.Forall₂ (Node.Alike V) items items') :
      Node.Alike V (.expression items) (.expression items')
  | list {items items' : List Node} (h : List.Forall₂ (Node.Alike V) items items') :
      Node.Alike V (.list items) (.list items')
  | operation {op : Operator} {left left' right right' : Node} (hleft : Node.Alike V left left')
      (hright : Node.Alike V right right') :
      Node.Alike V (.operation op left right) (.operation op left' right')
  | call {name : String} {args args' : List Node} (h : List.Forall₂ (Node.Alike V) args args') :
      Node.Alike V (.call name args) (.call name args')
  | declaration {name : String} {value value' : Node} {important : Bool}
      (h : Node.Alike V value value') :
      Node.Alike V (.declaration ⟨name, value, important⟩) (.declaration ⟨name, value', important⟩)
  | block {b b' : Block} (h : Block.Alike V b b') : Node.Alike V (.block b) (.block b')
  | mixin {selector : Selector} {args args' : List Argument}
      (h : List.Forall₂ (Argument.Alike V) args args') :
      Node.Alike V (.mixin ⟨selector, args⟩) (.mixin ⟨selector, args'⟩)

/-- Two arguments of one form with alike values. -/
inductive Argument.Alike (V : Variation) : Argument → Argument → Prop
  | positional {value value' : Node} (h : Node.Alike V value value') :
      Argument.Alike V (.positional value) (.positional value')
  | named {name : String} {value value' : Node} (h : Node.Alike V value value') :
      Argument.Alike V (.named name value) (.named name value')

/-- Two parameters of one name and form with alike defaults. -/
inductive Parameter.Alike (V : Variation) : Parameter → Parameter → Prop
  | required {name : String} : Parameter.Alike V (.required name) (.required name)
  | optional {name : String} {value value' : Node} (h : Node.Alike V value value') :
      Parameter.Alike V (.optional name value) (.optional name value')

/-- Two blocks under the same selectors, with stamps that belong together, whose rules are alike once they
are shuffled and what was added is left out. -/
inductive Block.Alike (V : Variation) : Block → Block → Prop
  | intro {stamp stamp' : Nat} {selectors : List Selector} {rules mid rules' : List Node}
      {kind kind' : BlockKind} (hstamp : V.stamps stamp stamp')
      (hshuffle : Shuffled V.Exchanges rules mid) (hrules : Padded (Node.Alike V) V.Added mid rules')
      (hkind : BlockKind.Alike V kind kind') :
      Block.Alike V ⟨stamp, selectors, rules, kind⟩ ⟨stamp', selectors, rules', kind'⟩

/-- Two blocks that are for the same, with alike parameters and closures. -/
inductive BlockKind.Alike (V : Variation) : BlockKind → BlockKind → Prop
  | root : BlockKind.Alike V .root .root
  | plain : BlockKind.Alike V .plain .plain
  | definition {params params' : List Parameter} (h : List.Forall₂ (Parameter.Alike V) params params') :
      BlockKind.Alike V (.definition params) (.definition params')
  | captured {params params' : List Parameter} {closure closure' : List Block}
      (hparams : List.Forall₂ (Parameter.Alike V) params params')
      (hclosure : List.Forall₂ (Block.Alike V) closure closure') :
      BlockKind.Alike V (.captured params closure) (.captured params' closure')

end

/-- Rules that are alike, but for their order and for what was added. -/
abbrev RulesAlike (V : Variation) : List Node → List Node → Prop :=
  ShuffledBy V.Exchanges (Node.Alike V) V.Added

/-- Two scopes of alike blocks. -/
abbrev Scope.Alike (V : Variation) (scope scope' : Scope) : Prop :=
  List.Forall₂ (Block.Alike V) scope scope'

/-- Two declarations of one name with alike values. -/
structure Declaration.Alike (V : Variation) (d d' : Declaration) : Prop where
  /-- The names are the same. -/
  name : d'.name = d.name
  /-- The values are alike. -/
  value : d.value.Alike V d'.value

/-- Two matches of alike blocks. -/
structure Match.Alike (V : Variation) (found found' : Match) : Prop where
  /-- The blocks found are alike. -/
  block : found.block.Alike V found'.block
  /-- The blocks around them are alike. -/
  enclosing : List.Forall₂ (Block.Alike V) found.enclosing found'.enclosing

variable {V W : Variation} {g : Grammar}

/-! ## The parts of alike trees

What evaluation sees of a node or block without evaluating it is the same, or alike, on both sides. -/

/-- Alike arguments have alike values. -/
lemma Argument.Alike.value {a a' : Argument} (h : a.Alike V a') : a.value.Alike V a'.value := by
  cases h with
  | positional h => exact h
  | named h => exact h

/-- Alike arguments are given in the same way. -/
lemma Argument.Alike.name? {a a' : Argument} (h : a.Alike V a') : a'.name? = a.name? := by
  cases h <;> rfl

/-- Alike parameters have one name. -/
lemma Parameter.Alike.name {p p' : Parameter} (h : p.Alike V p') : p'.name = p.name := by
  cases h <;> rfl

namespace Block.Alike

variable {b b' : Block}

/-- Their stamps belong together. -/
lemma stamp (h : b.Alike V b') : V.stamps b.stamp b'.stamp := by
  cases h with
  | intro hstamp _ _ _ => exact hstamp

/-- They are under the same selectors. -/
lemma selectors (h : b.Alike V b') : b'.selectors = b.selectors := by
  cases h
  rfl

/-- Their rules are alike. -/
lemma rules (h : b.Alike V b') : RulesAlike V b.rules b'.rules := by
  cases h with
  | intro _ hshuffle hrules _ => exact ⟨_, hshuffle, hrules⟩

/-- They are of alike kinds. -/
lemma kind (h : b.Alike V b') : b.kind.Alike V b'.kind := by
  cases h with
  | intro _ _ _ hkind => exact hkind

/-- A root is alike to a root. -/
lemma isRoot (h : b.Alike V b') : b'.isRoot = b.isRoot := by
  cases h with
  | intro _ _ _ hkind => cases hkind <;> rfl

/-- They have alike parameters. -/
lemma params (h : b.Alike V b') :
    Option.Rel (List.Forall₂ (Parameter.Alike V)) b.kind.params? b'.kind.params? := by
  cases h with
  | intro _ _ _ hkind =>
    cases hkind with
    | root => exact .none
    | plain => exact .none
    | definition h => exact .some h
    | captured h _ => exact .some h

/-- A definition is alike to a definition. -/
lemma isDefinition (h : b.Alike V b') : b'.isDefinition = b.isDefinition := by
  have hparams := h.params
  rw [Block.isDefinition, Block.isDefinition]
  generalize b.kind.params? = params, b'.kind.params? = params' at hparams
  cases hparams <;> rfl

/-- They have captured alike blocks. -/
lemma captures (h : b.Alike V b') : Scope.Alike V b.captures b'.captures := by
  cases h with
  | intro _ _ _ hkind =>
    cases hkind with
    | captured _ h => exact h
    | _ => exact .nil

/-- Alike blocks with other stamps and rules that are alike. -/
lemma with_rules (h : b.Alike V b') {stamp stamp' : Nat} (hstamp : V.stamps stamp stamp')
    {rules rules' : List Node} (hrules : RulesAlike V rules rules') :
    Block.Alike V { b with stamp := stamp, rules := rules }
      { b' with stamp := stamp', rules := rules' } := by
  obtain ⟨mid, hshuffle, hrules⟩ := hrules
  cases h with
  | intro _ _ _ hkind => exact .intro hstamp hshuffle hrules hkind

end Block.Alike

namespace Node.Alike

variable {n n' : Node}

/-- A value that stands for itself is alike to such a value. -/
lemma isLiteral (h : n.Alike V n') : n'.isLiteral = n.isLiteral := by
  cases h <;> rfl

/-- Alike nodes have one shape. -/
lemma shape (h : n.Alike V n') : n'.shape = n.shape := by
  cases h with
  | block h => rw [Node.shape, h.isRoot, Node.shape]
  | _ => rfl

/-- Alike imports are of one path. -/
lemma pendingImport? (h : n.Alike V n') : n'.pendingImport? = n.pendingImport? := by
  cases h <;> rfl

/-- Alike declarations. -/
lemma declaration? (h : n.Alike V n') :
    Option.Rel (Declaration.Alike V) n.declaration? n'.declaration? := by
  cases h with
  | declaration h => exact .some ⟨rfl, h⟩
  | @leaf n hleaf =>
    cases n with
    | declaration d => cases hleaf
    | _ => exact .none
  | _ => exact .none

end Node.Alike

namespace Variation.Added

variable {r : Node}

/-- What is added is no mixin call. -/
lemma isMixin (h : V.Added r) : r.shape.isMixin = false := by
  obtain ⟨d, rfl, -⟩ := h
  rfl

/-- What is added declares nothing. -/
lemma declaration? (h : V.Added r) : r.declaration? = none := by
  obtain ⟨d, rfl, -⟩ := h
  rfl

/-- What is added imports nothing. -/
lemma pendingImport? (h : V.Added r) : r.pendingImport? = none := by
  obtain ⟨d, rfl, -⟩ := h
  rfl

end Variation.Added

/-- Rules without calls are alike to rules without calls. -/
lemma RulesAlike.isMixin_eq_false {rules rules' : List Node} (h : RulesAlike V rules rules')
    (hno : ∀ r ∈ rules, r.shape.isMixin = false) : ∀ r ∈ rules', r.shape.isMixin = false := by
  obtain ⟨mid, hshuffle, hmid⟩ := h
  replace hno : ∀ r ∈ mid, r.shape.isMixin = false := fun r hr =>
    hno r (hshuffle.perm.mem_iff.mpr hr)
  clear hshuffle
  induction hmid with
  | nil => simp
  | cons hr _ ih =>
    rw [List.forall_mem_cons] at hno ⊢
    exact ⟨(congrArg Shape.isMixin hr.shape).trans hno.1, ih hno.2⟩
  | extra hr _ ih => exact List.forall_mem_cons.mpr ⟨hr.isMixin, ih hno⟩

/-! ## Every tree is alike to itself

This needs that every stamp in the tree belongs to itself. In what follows that is so for all stamps, or
for those that the memory knows. -/

/-- Arguments are alike if their values are. -/
lemma Argument.alike_of_value {a : Argument} (h : a.value.Alike V a.value) : a.Alike V a := by
  cases a with
  | positional value => exact .positional h
  | named name value => exact .named h

/-- Parameters are alike if their defaults are. -/
lemma Parameter.alike_of_default {p : Parameter} (h : ∀ d, p.default? = some d → d.Alike V d) :
    p.Alike V p := by
  cases p with
  | required name => exact .required
  | optional name value => exact .optional (h value rfl)

/-- Kinds are alike if the defaults and the captured blocks are. -/
lemma BlockKind.alike_of_parts {kind : BlockKind}
    (hdefaults : ∀ p ∈ kind.params?.getD [], ∀ d, p.default? = some d → d.Alike V d)
    (hclosure : ∀ c ∈ kind.closure?.getD [], c.Alike V c) : kind.Alike V kind := by
  have hparams : List.Forall₂ (Parameter.Alike V) (kind.params?.getD []) (kind.params?.getD []) :=
    List.forall₂_same.mpr fun p hp => Parameter.alike_of_default (hdefaults p hp)
  cases kind with
  | root => exact .root
  | plain => exact .plain
  | definition params => exact .definition hparams
  | captured params closure => exact .captured hparams (List.forall₂_same.mpr hclosure)

/-- Where every stamp in a tree belongs to itself, the tree is alike to itself. Nothing need be exchanged
or added for that. -/
theorem alike_of_stampsIn {P : Nat → Prop} (h : ∀ s, P s → V.stamps s s) :
    (∀ n : Node, n.StampsIn P → n.Alike V n) ∧ ∀ b : Block, b.StampsIn P → b.Alike V b := by
  refine Node.joint_induction ?_ ?_
  · rintro n hvalues hblock ⟨hstamps, hblockStamps⟩
    replace hvalues : ∀ k ∈ n.values, k.Alike V k := fun k hk => hvalues k hk (hstamps k hk)
    cases n with
    | expression items => exact .expression (List.forall₂_same.mpr hvalues)
    | list items => exact .list (List.forall₂_same.mpr hvalues)
    | operation op left right =>
      exact .operation (hvalues left (by simp [Node.values])) (hvalues right (by simp [Node.values]))
    | call name args => exact .call (List.forall₂_same.mpr hvalues)
    | declaration d =>
      obtain ⟨name, value, important⟩ := d
      exact .declaration (hvalues value List.mem_cons_self)
    | block b => exact .block (hblock b rfl (hblockStamps b rfl))
    | mixin call =>
      obtain ⟨selector, args⟩ := call
      refine .mixin (List.forall₂_same.mpr fun a ha => Argument.alike_of_value ?_)
      exact hvalues a.value (List.mem_map_of_mem ha)
    | _ => exact .leaf rfl
  · rintro b hrules hdefaults hcaptures ⟨hstamp, hrulesStamps, hdefaultsStamps, hcapturesStamps⟩
    have hkind : b.kind.Alike V b.kind := by
      refine BlockKind.alike_of_parts (fun p hp d hd => ?_) fun c hc => hcaptures c hc (hcapturesStamps c hc)
      have hmem : d ∈ b.defaults := List.mem_filterMap.mpr ⟨p, hp, hd⟩
      exact hdefaults d hmem (hdefaultsStamps d hmem)
    have hsame : List.Forall₂ (Node.Alike V) b.rules b.rules :=
      List.forall₂_same.mpr fun r hr => hrules r hr (hrulesStamps r hr)
    obtain ⟨stamp, selectors, rules, kind⟩ := b
    exact .intro (h stamp hstamp) (.refl rules) (.of_forall₂ hsame) hkind

/-- Where every stamp belongs to itself, every tree is alike to itself. -/
theorem alike_refl (h : ∀ s, V.stamps s s) : (∀ n : Node, n.Alike V n) ∧ ∀ b : Block, b.Alike V b :=
  ⟨fun n => (alike_of_stampsIn fun s _ => h s).1 n ((stampsIn_of_forall fun _ => trivial).1 n),
    fun b => (alike_of_stampsIn fun s _ => h s).2 b ((stampsIn_of_forall fun _ => trivial).2 b)⟩

/-- The same for rules. -/
lemma Node.forall₂_alike_refl (h : ∀ s, V.stamps s s) (rules : List Node) :
    List.Forall₂ (Node.Alike V) rules rules :=
  List.forall₂_same.mpr fun r _ => (alike_refl h).1 r

/-- The same for scopes. -/
lemma Scope.alike_refl (h : ∀ s, V.stamps s s) (scope : Scope) : Scope.Alike V scope scope :=
  List.forall₂_same.mpr fun b _ => (Stylesheet.alike_refl h).2 b

/-! ## More may differ

While two runs go on, more stamps come to belong together, and what was alike stays so. -/

/-- Alike arguments, by what follows for their values. -/
lemma Argument.Alike.imp {a a' : Argument} (h : a.Alike V a')
    (hvalue : a.value.Alike V a'.value → a.value.Alike W a'.value) : a.Alike W a' := by
  cases h with
  | positional h => exact .positional (hvalue h)
  | named h => exact .named (hvalue h)

/-- Alike parameters, by what follows for their defaults. -/
lemma Parameter.Alike.imp {p p' : Parameter} (h : p.Alike V p')
    (hdefault : ∀ d, p.default? = some d → ∀ d', d.Alike V d' → d.Alike W d') : p.Alike W p' := by
  cases h with
  | required => exact .required
  | optional h => exact .optional (hdefault _ rfl _ h)

/-- A variation that allows more relates more trees, by induction over nodes and blocks at once. -/
theorem alike_mono (h : V.Le W) : (∀ n n' : Node, n.Alike V n' → n.Alike W n') ∧
    ∀ b b' : Block, b.Alike V b' → b.Alike W b' := by
  refine Node.joint_induction ?_ ?_
  · intro n hvalues hblock n' hn
    cases hn with
    | leaf hleaf => exact .leaf hleaf
    | expression hitems => exact .expression (forall₂_imp_of_mem hitems hvalues)
    | list hitems => exact .list (forall₂_imp_of_mem hitems hvalues)
    | operation hleft hright =>
      exact .operation (hvalues _ (by simp [Node.values]) _ hleft)
        (hvalues _ (by simp [Node.values]) _ hright)
    | call hargs => exact .call (forall₂_imp_of_mem hargs hvalues)
    | declaration hvalue => exact .declaration (hvalues _ List.mem_cons_self _ hvalue)
    | block hb => exact .block (hblock _ rfl _ hb)
    | mixin hargs =>
      refine .mixin (forall₂_imp_of_mem hargs fun a ha a' haa' => haa'.imp ?_)
      exact hvalues _ (List.mem_map_of_mem ha) _
  · intro b hrules hdefaults hcaptures b' hb
    have hparams : ∀ params, b.kind.params? = some params → ∀ params',
        List.Forall₂ (Parameter.Alike V) params params' →
          List.Forall₂ (Parameter.Alike W) params params' := by
      intro params hkind params' hparams
      refine forall₂_imp_of_mem hparams fun p hp p' hpp' => hpp'.imp fun d hd => hdefaults d ?_
      rw [Block.defaults, hkind]
      exact List.mem_filterMap.mpr ⟨p, hp, hd⟩
    cases hb with
    | @intro stamp stamp' selectors rules mid rules' kind kind' hstamp hshuffle hpadded hkind =>
      refine .intro (h.stamps hstamp) (hshuffle.imp fun _ _ hrs => h.exchanges hrs)
        (hpadded.imp (fun r hr => hrules r (hshuffle.perm.mem_iff.mpr hr)) fun _ hr => hr.mono h) ?_
      cases hkind with
      | root => exact .root
      | plain => exact .plain
      | definition hps => exact .definition (hparams _ rfl _ hps)
      | captured hps hclosure =>
        exact .captured (hparams _ rfl _ hps) (forall₂_imp_of_mem hclosure hcaptures)

/-- The same for one node. -/
lemma Node.Alike.mono {n n' : Node} (hn : n.Alike V n') (h : V.Le W) : n.Alike W n' :=
  (alike_mono h).1 n n' hn

/-- The same for one block. -/
lemma Block.Alike.mono {b b' : Block} (hb : b.Alike V b') (h : V.Le W) : b.Alike W b' :=
  (alike_mono h).2 b b' hb

/-- The same for scopes. -/
lemma Scope.Alike.mono {scope scope' : Scope} (hscope : Scope.Alike V scope scope') (h : V.Le W) :
    Scope.Alike W scope scope' :=
  List.Forall₂.imp (fun _ _ hb => hb.mono h) hscope

/-- The same for rules. -/
lemma RulesAlike.mono {rules rules' : List Node} (hrules : RulesAlike V rules rules') (h : V.Le W) :
    RulesAlike W rules rules' :=
  hrules.imp (fun _ _ hrs => h.exchanges hrs) (fun _ _ _ hr => hr.mono h) fun _ hr => hr.mono h

/-- The same for matches. -/
lemma Match.Alike.mono {found found' : Match} (hfound : found.Alike V found') (h : V.Le W) :
    found.Alike W found' :=
  ⟨hfound.block.mono h, Scope.Alike.mono hfound.enclosing h⟩

/-! ## Nothing differs -/

/-- Lists of equal elements are equal. -/
lemma eq_of_forall₂_of_mem {α : Type} {R : α → α → Prop} {l l' : List α} (h : List.Forall₂ R l l')
    (heq : ∀ a ∈ l, ∀ a', R a a' → a' = a) : l' = l := by
  have hsame : List.Forall₂ Eq l' l := (forall₂_imp_of_mem h heq).flip
  rwa [List.forall₂_eq_eq_eq] at hsame

/-- Where not even stamps differ, alike trees are equal. By induction over nodes and blocks at once:
nothing is exchanged or added, so the rules of two blocks are equal one by one. -/
theorem eq_of_alike : (∀ n n' : Node, n.Alike (.stampsOnly fun a b => b = a) n' → n' = n) ∧
    ∀ b b' : Block, b.Alike (.stampsOnly fun a b => b = a) b' → b' = b := by
  refine Node.joint_induction ?_ ?_
  · intro n hvalues hblock n' hn
    cases hn with
    | leaf _ => rfl
    | expression hitems => rw [eq_of_forall₂_of_mem hitems hvalues]
    | list hitems => rw [eq_of_forall₂_of_mem hitems hvalues]
    | operation hleft hright =>
      rw [hvalues _ (by simp [Node.values]) _ hleft, hvalues _ (by simp [Node.values]) _ hright]
    | call hargs => rw [eq_of_forall₂_of_mem hargs hvalues]
    | declaration hvalue => rw [hvalues _ List.mem_cons_self _ hvalue]
    | block hb => rw [hblock _ rfl _ hb]
    | mixin hargs =>
      rw [eq_of_forall₂_of_mem hargs]
      intro a ha a' haa'
      have hvalue := hvalues _ (List.mem_map_of_mem ha) _ haa'.value
      cases haa' with
      | positional _ => exact congrArg Argument.positional hvalue
      | named _ => exact congrArg (Argument.named _) hvalue
  · intro b hrules hdefaults hcaptures b' hb
    have hparams : ∀ params, b.kind.params? = some params → ∀ params',
        List.Forall₂ (Parameter.Alike (.stampsOnly fun a b => b = a)) params params' →
          params' = params := by
      intro params hkind params' hparams
      refine eq_of_forall₂_of_mem hparams fun p hp p' hpp' => ?_
      cases hpp' with
      | required => rfl
      | @optional name value value' h =>
        have hmem : value ∈ b.defaults := by
          rw [Block.defaults, hkind]
          exact List.mem_filterMap.mpr ⟨_, hp, rfl⟩
        rw [hdefaults value hmem value' h]
    cases hb with
    | @intro stamp stamp' selectors rules mid rules' kind kind' hstamp hshuffle hpadded hkind =>
      obtain rfl := hshuffle.eq_of_forall_not fun _ _ h => h
      obtain rfl := eq_of_forall₂_of_mem (hpadded.forall₂ fun _ h => h.elim fun _ hd => hd.2.2) hrules
      obtain rfl : stamp' = stamp := hstamp
      cases hkind with
      | root => rfl
      | plain => rfl
      | definition hps => rw [hparams _ rfl _ hps]
      | captured hps hclosure =>
        rw [hparams _ rfl _ hps, eq_of_forall₂_of_mem hclosure hcaptures]

/-- The same for rules. -/
lemma RulesAlike.eq {rules rules' : List Node}
    (h : RulesAlike (.stampsOnly fun a b => b = a) rules rules') : rules' = rules :=
  eq_of_forall₂_of_mem (h.forall₂ (fun _ _ hrs => hrs) fun _ hr => hr.elim fun _ hd => hd.2.2)
    fun r _ r' => eq_of_alike.1 r r'

/-! ## Declarations

The last declaration of a name decides, and declarations of one name never change places. -/

/-- The last declaration among the rules that `p` picks. -/
lemma find?_reverse_declarations (p : Declaration → Bool) (rules : List Node) :
    (rules.filterMap Node.declaration?).reverse.find? p =
      (rules.filterMap fun r => r.declaration?.filter p).reverse.head? := by
  have hfilter : (rules.filterMap fun r => r.declaration?.filter p) =
      (rules.filterMap Node.declaration?).filter p := by
    rw [← List.filterMap_eq_filter, List.filterMap_filterMap]
    refine List.filterMap_congr fun r _ => ?_
    cases r.declaration? with
    | none => rfl
    | some d => simp [Option.filter, Option.guard]
  rw [hfilter, ← List.filter_reverse, List.head?_filter]

/-- Alike rules have alike last declarations of a name. Declarations of one name are never exchanged, so
the list of those that the test accepts keeps its order. -/
lemma RulesAlike.find?_reverse_declarations {rules rules' : List Node}
    (h : RulesAlike V rules rules') {p : Declaration → Bool} (name : String)
    (hp : ∀ d, p d = true → d.name = name) (hpalike : ∀ d d', d.Alike V d' → p d' = p d) :
    Option.Rel (Declaration.Alike V) ((rules.filterMap Node.declaration?).reverse.find? p)
      ((rules'.filterMap Node.declaration?).reverse.find? p) := by
  rw [Stylesheet.find?_reverse_declarations, Stylesheet.find?_reverse_declarations]
  refine rel_head?_of_forall₂ (List.rel_reverse (h.forall₂_filterMap ?_ ?_ ?_))
  · -- of two rules that are exchanged, at most one is a declaration of the name
    intro r s hrs
    cases hr : r.declaration?.filter p with
    | none => exact .inl rfl
    | some d =>
      right
      cases hs : s.declaration?.filter p with
      | none => rfl
      | some e =>
        rw [Option.filter_eq_some_iff] at hr hs
        exact absurd ((hp d hr.2).trans (hp e hs.2).symm) (hrs.independent.name_ne hr.1 hs.1)
  · intro r r' hr
    have hdeclaration := hr.declaration?
    generalize r.declaration? = d, r'.declaration? = d' at hdeclaration
    cases hdeclaration with
    | none => exact .none
    | @some d d' hd =>
      rw [Option.filter_some, Option.filter_some, hpalike d d' hd]
      split
      · exact .some hd
      · exact .none
  · intro r hr
    rw [hr.declaration?]
    rfl

/-- Alike declarations are both variables or both properties. -/
lemma Declaration.Alike.isVariable {d d' : Declaration} (h : d.Alike V d') :
    d'.isVariable = d.isVariable := by
  rw [Declaration.isVariable, h.name, Declaration.isVariable]

/-- Alike blocks declare a variable alike. -/
lemma Block.Alike.lookup {b b' : Block} (h : b.Alike V b') (name : String) :
    Option.Rel (Declaration.Alike V) (b.lookup? name) (b'.lookup? name) := by
  refine h.rules.find?_reverse_declarations name (fun d hd => ?_) fun d d' hd => ?_
  · simp only [Bool.and_eq_true, beq_iff_eq] at hd
    exact hd.2
  · rw [hd.isVariable, hd.name]

/-- Alike blocks declare a property or variable alike. -/
lemma Block.Alike.lastNamed {b b' : Block} (h : b.Alike V b') (name : String) :
    Option.Rel (Declaration.Alike V) (b.lastNamed? name) (b'.lastNamed? name) := by
  refine h.rules.find?_reverse_declarations name (fun d hd => ?_) fun d d' hd => ?_
  · exact beq_iff_eq.mp hd
  · rw [hd.name]

/-- Alike scopes declare a variable alike. -/
lemma Scope.Alike.lookup {scope scope' : Scope} (h : Scope.Alike V scope scope') (name : String) :
    Option.Rel (Declaration.Alike V) (scope.lookup? name) (scope'.lookup? name) := by
  induction h with
  | nil => exact .none
  | @cons b b' _ _ hb _ ih =>
    have hfirst := hb.lookup name
    rw [Scope.lookup?, List.findSome?_cons, Scope.lookup?, List.findSome?_cons]
    generalize b.lookup? name = d, b'.lookup? name = d' at hfirst
    cases hfirst with
    | some hd => exact .some hd
    | none => exact ih

/-! ## Texts

A block that stands as a value shows in messages, by how many rules it has. So values have one text only
if nothing can be added to the blocks in them, or if there are no blocks in them. -/

/-- Values of the grammar show nothing of the variation: no value is a block, or nothing is added. -/
def Variation.Hidden (V : Variation) (g : Grammar) : Prop :=
  g.Strict ∨ ∀ l, ¬V.added l

/-- A node in value position is no block, or one in which nothing is added. -/
lemma Variation.Hidden.of_value (h : V.Hidden g) {n : Node} (hn : n.Conforms g .value)
    (hblock : n.shape.isBlock = true) : ∀ l, ¬V.added l := by
  rcases h with hstrict | hadded
  · rw [hn.isBlock_eq_false hstrict] at hblock
    cases hblock
  · exact hadded

/-- The texts of nodes, one by one. -/
lemma Node.toSources_eq_map (l : List Node) : Node.toSources l = l.map Node.toSource := by
  induction l with
  | nil => rfl
  | cons n l ih => rw [Node.toSources, ih, List.map_cons]

/-- Arguments whose values have one text have one text. -/
lemma Argument.toSources_alike {l l' : List Argument} (h : List.Forall₂ (Argument.Alike V) l l')
    (hvalues : ∀ a ∈ l, ∀ n', a.value.Alike V n' → n'.toSource = a.value.toSource) :
    Argument.toSources l' = Argument.toSources l := by
  induction h with
  | nil => rfl
  | cons ha _ ih =>
    have hfirst := hvalues _ List.mem_cons_self _ ha.value
    have hrest := ih fun a hmem => hvalues a (List.mem_cons_of_mem _ hmem)
    cases ha <;> simp_all [Argument.toSources, Argument.value]

/-- Alike blocks to which nothing is added have one text in messages, which counts their rules. -/
lemma Block.Alike.toSource {b b' : Block} (h : b.Alike V b') (hadded : ∀ l, ¬V.added l) :
    b'.toSource = b.toSource := by
  obtain ⟨mid, hshuffle, hpadded⟩ := h.rules
  have hforall : List.Forall₂ (Node.Alike V) mid b'.rules :=
    hpadded.forall₂ fun r hr => hadded _ hr.choose_spec.2.2
  have hlength : b'.rules.length = b.rules.length :=
    hforall.length_eq.symm.trans hshuffle.perm.length_eq.symm
  rw [Block.toSource, h.selectors, hlength, Block.toSource]

/-- Alike nodes have one text in messages, unless they are blocks to which something is added. A block has
the text of its selectors and its rules, and nothing of its stamp. -/
theorem Node.Alike.toSource {n n' : Node} {p : Place} (hV : V.Hidden g) (hn : n.Conforms g p)
    (hblock : n.shape.isBlock = true → ∀ l, ¬V.added l) (h : n.Alike V n') :
    n'.toSource = n.toSource := by
  induction n using Node.induction generalizing n' p with
  | step n hvalues _ =>
    replace hvalues : ∀ k ∈ n.values, ∀ k', k.Alike V k' → k'.toSource = k.toSource := by
      intro k hk k' hkk'
      have hkvalue := hn.of_mem_values hk
      exact hvalues k hk hkvalue (hV.of_value hkvalue) hkk'
    cases h with
    | leaf _ => rfl
    | expression hitems | list hitems | call hitems =>
      have hmap := map_eq_of_forall₂ hitems hvalues
      simp only [Node.toSource, Node.toSources_eq_map, hmap]
    | operation hleft hright =>
      have hl := hvalues _ (by simp [Node.values]) _ hleft
      have hr := hvalues _ (by simp [Node.values]) _ hright
      simp only [Node.toSource, hl, hr]
    | declaration hvalue =>
      have hv := hvalues _ List.mem_cons_self _ hvalue
      simp only [Node.toSource, hv]
    | block hb =>
      rw [Node.toSource, Node.toSource]
      exact hb.toSource (hblock rfl)
    | @mixin selector args args' hargs =>
      have htexts := Argument.toSources_alike hargs fun a ha => hvalues _ (List.mem_map_of_mem ha)
      have hempty : args'.isEmpty = args.isEmpty := by cases hargs <;> rfl
      simp only [Node.toSource, htexts, hempty]

/-- Alike nodes in value position have one text in messages. -/
lemma Node.Alike.toSource_of_value {n n' : Node} (hV : V.Hidden g) (hn : n.Conforms g .value)
    (h : n.Alike V n') : n'.toSource = n.toSource :=
  h.toSource hV hn (hV.of_value hn)

/-- Nodes that are printed alike are printed alike one after the other. -/
lemma Node.toCssAll_alike {l l' : List Node} (h : List.Forall₂ (Node.Alike V) l l')
    (hcss : ∀ n ∈ l, ∀ n', n.Alike V n' → n'.toCss = n.toCss) :
    Node.toCssAll l' = Node.toCssAll l := by
  induction h with
  | nil => rfl
  | cons hn _ ih =>
    rw [Node.toCssAll, hcss _ List.mem_cons_self _ hn,
      ih fun n hmem => hcss n (List.mem_cons_of_mem _ hmem), Node.toCssAll]

/-- **Alike values have one printed text**, or they have none for the same cause. -/
theorem Node.Alike.toCss {n n' : Node} {p : Place} (hV : V.Hidden g) (hn : n.Conforms g p)
    (h : n.Alike V n') : n'.toCss = n.toCss := by
  induction n using Node.induction generalizing n' p with
  | step n hvalues _ =>
    replace hvalues : ∀ k ∈ n.values, ∀ k', k.Alike V k' → k'.toCss = k.toCss :=
      fun k hk k' hkk' => hvalues k hk (hn.of_mem_values hk) hkk'
    cases h with
    | leaf _ => rfl
    | expression hitems | list hitems =>
      rw [Node.toCss, Node.toCssAll_alike hitems hvalues, Node.toCss]
    | declaration hvalue => rw [Node.toCss, hvalues _ List.mem_cons_self _ hvalue, Node.toCss]
    | operation hleft hright =>
      have hsource := Node.Alike.toSource hV hn (by simp [Node.shape, Shape.isBlock])
        (.operation hleft hright)
      simp only [Node.toCss, Node.kind, hsource]
    | call hargs =>
      have hsource := Node.Alike.toSource hV hn (by simp [Node.shape, Shape.isBlock]) (.call hargs)
      simp only [Node.toCss, Node.kind, hsource]
    | block hb => rfl
    | mixin hargs => rfl

/-! ## Computing

Operators and functions look at the shape of their operands, at their numbers and colours, and at their
texts in complaints. All of these are the same for alike values. -/

/-- What is computed is alike to itself, whatever may differ. -/
lemma Proper.concurs {x : Except EvalError Node} (h : Proper Node.Scalar x) :
    Concurs (Node.Alike V) x x := by
  cases h with
  | error _ => exact .error _
  | ok hscalar => cases hscalar <;> exact .ok (.leaf rfl)

/-- Alike nodes of one text, which is all that a built-in function or an operator sees of them. -/
structure Node.Same (V : Variation) (n n' : Node) : Prop where
  /-- They are alike. -/
  alike : n.Alike V n'
  /-- They have one text in messages. -/
  toSource : n'.toSource = n.toSource

/-- Alike values are the same to what computes with them. -/
lemma Node.Alike.same {n n' : Node} (hV : V.Hidden g) (hn : n.Conforms g .value) (h : n.Alike V n') :
    n.Same V n' :=
  ⟨h, h.toSource_of_value hV hn⟩

/-- An operator computes the same from alike operands. -/
lemma Node.operate_alike (op : Operator) {left left' right right' : Node} (hleft : left.Same V left')
    (hright : right.Same V right') :
    Concurs (Node.Alike V) (Node.operate op left right) (Node.operate op left' right') := by
  have hsame : Node.operate op left' right' = Node.operate op left right := by
    obtain ⟨hl, hltext⟩ := hleft
    obtain ⟨hr, hrtext⟩ := hright
    cases hl <;> cases hr <;> simp only [Node.operate, hltext, hrtext]
  rw [hsame]
  exact (Node.operate_proper op left right).concurs

namespace Arguments

/-- Two calls of one function with arguments that are the same to it. -/
structure Same (V : Variation) (args args' : Arguments) : Prop where
  /-- They name the function in the same way. -/
  function : args'.function = args.function
  /-- Their arguments are the same, one by one. -/
  nodes : List.Forall₂ (Node.Same V) args.nodes args'.nodes

variable {args args' : Arguments} (h : args.Same V args')

include h

/-- There are as many arguments. -/
lemma Same.expectCount (count : Nat) : args'.expectCount count = args.expectCount count := by
  rw [Arguments.expectCount, ← h.nodes.length_eq, h.function, Arguments.expectCount]

/-- Complaints are the same. -/
lemma Same.wrongKind (kind : String) {found found' : Option Node}
    (hfound : Option.Rel (Node.Same V) found found') :
    args'.wrongKind kind found' = args.wrongKind kind found := by
  cases hfound with
  | none => rw [Arguments.wrongKind, h.function, Arguments.wrongKind]
  | some hn => simp only [Arguments.wrongKind, h.function, Option.map_some, hn.toSource]

/-- The same number stands at a place. -/
lemma Same.number (index : Nat) : args'.number index = args.number index := by
  have hplace := rel_getElem?_of_forall₂ h.nodes index
  have hwrong := h.wrongKind "number" hplace
  rw [Arguments.number, Arguments.number]
  generalize args.nodes[index]? = n, args'.nodes[index]? = n' at hplace hwrong
  cases hplace with
  | none => exact congrArg Except.error hwrong
  | @some n n' hn =>
    obtain ⟨halike, -⟩ := hn
    cases halike with
    | leaf _ => cases n <;> first | rfl | exact congrArg Except.error hwrong
    | _ => exact congrArg Except.error hwrong

/-- The same colour stands at a place. -/
lemma Same.color (index : Nat) : args'.color index = args.color index := by
  have hplace := rel_getElem?_of_forall₂ h.nodes index
  have hwrong := h.wrongKind "color" hplace
  rw [Arguments.color, Arguments.color]
  generalize args.nodes[index]? = n, args'.nodes[index]? = n' at hplace hwrong
  cases hplace with
  | none => exact congrArg Except.error hwrong
  | @some n n' hn =>
    obtain ⟨halike, -⟩ := hn
    cases halike with
    | leaf _ => cases n <;> first | rfl | exact congrArg Except.error hwrong
    | _ => exact congrArg Except.error hwrong

/-- All arguments are the same numbers. -/
lemma Same.numbers : args'.numbers = args.numbers := by
  have hnumber : args'.number = args.number := funext fun index => h.number index
  rw [Arguments.numbers, hnumber, ← h.nodes.length_eq, Arguments.numbers]

/-- One more argument, which has no parts. -/
lemma Same.append {n : Node} (hleaf : n.isLeaf = true) : (args.append n).Same V (args'.append n) :=
  ⟨h.function, List.rel_append h.nodes (.cons ⟨.leaf hleaf, rfl⟩ .nil)⟩

/-- A colour is built from the same components. -/
lemma Same.colorOfFour (build : Quantity → Quantity → Quantity → Quantity → Color) :
    args'.colorOfFour build = args.colorOfFour build := by
  rw [Arguments.colorOfFour, h.expectCount, h.numbers, h.function, Arguments.colorOfFour]

/-- A component is read from the same colour, or changed in it. -/
lemma Same.component (read : Color → Quantity) (change : Color → Quantity → Color) :
    args'.component read change = args.component read change := by
  have hcolor := h.color 0
  have hnumber := h.number 1
  have hfunction := h.function
  have hnodes := h.nodes
  rw [Arguments.component, Arguments.component, hcolor, hnumber, hfunction]
  -- the rest of the function asks only how many arguments there are
  generalize args.nodes = nodes, args'.nodes = nodes' at hnodes
  cases hnodes with
  | nil => rfl
  | cons _ hnodes =>
    cases hnodes with
    | nil => rfl
    | cons _ hnodes =>
      cases hnodes with
      | nil => rfl
      | cons _ hnodes => simp only [List.length_cons, hnodes.length_eq]

/-- The same text is taken out of its quotes. -/
lemma Same.unquote : args'.unquote = args.unquote := by
  have hplace := rel_head?_of_forall₂ h.nodes
  have hwrong := h.wrongKind "string" hplace
  rw [Arguments.unquote, h.expectCount, Arguments.unquote]
  refine congrArg (args.expectCount 1 >>= ·) (funext fun _ => ?_)
  generalize args.nodes.head? = n, args'.nodes.head? = n' at hplace hwrong
  cases hplace with
  | none => exact congrArg Except.error hwrong
  | @some n n' hn =>
    obtain ⟨halike, -⟩ := hn
    cases halike with
    | leaf _ => cases n <;> first | rfl | exact congrArg Except.error hwrong
    | _ => exact congrArg Except.error hwrong

/-- The first arguments have alike items. -/
lemma Same.firstItems : List.Forall₂ (Node.Alike V) args.firstItems args'.firstItems := by
  have hplace := rel_head?_of_forall₂ h.nodes
  rw [Arguments.firstItems, Arguments.firstItems]
  generalize args.nodes.head? = n, args'.nodes.head? = n' at hplace
  cases hplace with
  | none => exact .nil
  | @some n n' hn =>
    obtain ⟨halike, -⟩ := hn
    cases halike with
    | @leaf n hleaf =>
      cases n with
      | expression | list => cases hleaf
      | _ => exact .cons (.leaf hleaf) .nil
    | expression h => exact h
    | list h => exact h
    | operation hl hr => exact .cons (.operation hl hr) .nil
    | call h => exact .cons (.call h) .nil
    | declaration h => exact .cons (.declaration h) .nil
    | block h => exact .cons (.block h) .nil
    | mixin h => exact .cons (.mixin h) .nil

/-- There are as many items. -/
lemma Same.length : args'.length = args.length := by
  rw [Arguments.length, h.expectCount, ← h.firstItems.length_eq, Arguments.length]

omit h in
/-- Alike lists have alike items at a place. -/
lemma itemAt?_alike {items items' : List Node} (h : List.Forall₂ (Node.Alike V) items items')
    (index : Float) : Option.Rel (Node.Alike V) (itemAt? items index) (itemAt? items' index) := by
  unfold itemAt?
  cases wholeNumber? index with
  | none => exact .none
  | some n =>
    simp only [Option.bind_eq_bind, Option.bind_some]
    split
    · exact .none
    · exact rel_getElem?_of_forall₂ h _

/-- Alike items are extracted. -/
lemma Same.extract : Concurs (Node.Alike V) args.extract args'.extract := by
  rw [Arguments.extract, Arguments.extract, h.expectCount, h.number, h.function]
  cases args.expectCount 2 with
  | error e => exact .error e
  | ok =>
    cases args.number 1 with
    | error e => exact .error e
    | ok q =>
      have hitem := itemAt?_alike h.firstItems q.value
      simp only [bind, Except.bind]
      generalize itemAt? args.firstItems q.value = n, itemAt? args'.firstItems q.value = n' at hitem
      cases hitem with
      | none => exact .error _
      | some hn => exact .ok hn

end Arguments

/-- **Built-in functions do not tell alike arguments apart.** All but one compute from numbers, colours
and texts, which are the same; `extract` gives an item of its argument, which is alike. -/
theorem Builtin.apply_alike (builtin : Builtin) {args args' : Arguments} (h : args.Same V args') :
    Concurs (Node.Alike V) (builtin.apply args) (builtin.apply args') := by
  by_cases hextract : builtin = .extract
  · subst hextract
    exact h.extract
  · have hsame : builtin.apply args' = builtin.apply args := by
      cases builtin with
      | extract => exact absurd rfl hextract
      | abs | ceil | floor | round | percentage =>
        simp only [Builtin.apply, Arguments.mapNumber, Arguments.percentage, h.expectCount, h.number]
      | rgba | hsla => exact h.colorOfFour _
      | rgb | hsl =>
        have happend := h.append (n := .number (.plain 1.0)) rfl
        simp only [Builtin.apply, Arguments.rgb, Arguments.hsl, Arguments.rgba, Arguments.hsla,
          h.expectCount, happend.colorOfFour]
      | alpha | hue | saturation | lightness | red | green | blue => exact h.component _ _
      | lighten | darken =>
        simp only [Builtin.apply, Arguments.shiftLightness, h.expectCount, h.color, h.number]
      | e => exact h.unquote
      | length => exact h.length
    rw [hsame]
    exact (Builtin.apply_scalar hextract args).concurs

/-! ## Strict grammars

Only blocks can differ. Where no value is a block, there is nothing to differ in a value. -/

/-- **In a strict grammar, alike nodes that are no blocks are equal**: a difference is always in a
block. -/
theorem Node.Alike.eq_of_strict (hg : g.Strict) {n n' : Node} {p : Place} (hn : n.Conforms g p)
    (hblock : n.shape.isBlock = false) (h : n.Alike V n') : n' = n := by
  induction n using Node.induction generalizing n' p with
  | step n hvalues _ =>
    replace hvalues : ∀ k ∈ n.values, ∀ k', k.Alike V k' → k' = k := by
      intro k hk k' hkk'
      have hkvalue := hn.of_mem_values hk
      exact hvalues k hk hkvalue (hkvalue.isBlock_eq_false hg) hkk'
    have hlist : ∀ {l l' : List Node}, List.Forall₂ (Node.Alike V) l l' →
        (∀ k ∈ l, k ∈ n.values) → l' = l := by
      intro l l' hl hmem
      have hmap := map_eq_of_forall₂ (f := id) (g := id) hl fun k hk => hvalues k (hmem k hk)
      rwa [List.map_id, List.map_id] at hmap
    cases h with
    | leaf _ => rfl
    | expression hitems | list hitems | call hitems => rw [hlist hitems fun _ hk => hk]
    | operation hleft hright =>
      rw [hvalues _ (by simp [Node.values]) _ hleft, hvalues _ (by simp [Node.values]) _ hright]
    | declaration hvalue => rw [hvalues _ List.mem_cons_self _ hvalue]
    | block _ => cases hblock
    | @mixin selector args args' hargs =>
      have hmap : args'.map id = args.map id := by
        refine map_eq_of_forall₂ hargs fun a ha a' haa' => ?_
        have hvalue := hvalues a.value (List.mem_map_of_mem ha) _ haa'.value
        cases haa' with
        | positional _ => exact congrArg Argument.positional hvalue
        | named _ => exact congrArg (Argument.named _) hvalue
      rw [List.map_id, List.map_id] at hmap
      rw [hmap]

/-- A node that is no block has no stamps, so that it is alike to itself whatever stamps may become. -/
theorem Node.Conforms.alike_self (hg : g.Strict) {n : Node} {p : Place} (hn : n.Conforms g p)
    (hblock : n.shape.isBlock = false) (V : Variation) : n.Alike V n := by
  refine (alike_of_stampsIn (P := fun _ => False) fun _ hs => hs.elim).1 n ?_
  induction n using Node.induction generalizing p with
  | step n hvalues _ =>
    refine .of_values hblock fun k hk => ?_
    have hvalue := hn.of_mem_values hk
    exact hvalues k hk hvalue (hvalue.isBlock_eq_false hg)

/-- Where nothing is captured, neither has a kind. -/
lemma Block.Conforms.kind_alike_self (hg : g.Strict) {b : Block} (hb : b.Conforms g)
    (hcaptures : b.captures = []) (V : Variation) : b.kind.Alike V b.kind := by
  refine BlockKind.alike_of_parts (fun p hp d hd => ?_) ?_
  · cases hparams : b.kind.params? with
    | none =>
      rw [hparams] at hp
      cases hp
    | some params =>
      rw [hparams] at hp
      have hconforms := hb.of_default hparams hp hd
      exact hconforms.alike_self hg (hconforms.isBlock_eq_false hg) V
  · intro c hc
    have hmem : c ∈ b.captures := hc
    rw [hcaptures] at hmem
    cases hmem

/-- Definitions of a strict grammar that have captured nothing have the same parameters. -/
lemma Block.Alike.kind_eq_of_strict (hg : g.Strict) {b b' : Block} (hb : b.Conforms g)
    (hcaptures : b.captures = []) (h : b.Alike V b') : b'.kind = b.kind := by
  have hparams : ∀ params params', b.kind.params? = some params →
      List.Forall₂ (Parameter.Alike V) params params' → params' = params := by
    intro params params' hsome hl
    refine eq_of_forall₂_of_mem hl fun p hp p' hpp' => ?_
    cases hpp' with
    | required => rfl
    | @optional name value value' hvalue =>
      have hconforms := hb.of_default hsome hp rfl
      rw [hvalue.eq_of_strict hg hconforms (hconforms.isBlock_eq_false hg)]
  have hclosure := h.captures
  rw [hcaptures] at hclosure
  obtain ⟨stamp, selectors, rules, kind⟩ := b
  obtain ⟨stamp', selectors', rules', kind'⟩ := b'
  have hkind := h.kind
  cases hkind with
  | root => rfl
  | plain => rfl
  | definition hl => rw [hparams _ _ rfl hl]
  | @captured params params' closure closure' hl _ =>
    obtain rfl : closure = [] := hcaptures
    obtain rfl : closure' = [] := List.forall₂_nil_left_iff.mp hclosure
    rw [hparams _ _ rfl hl]

end Stylesheet
