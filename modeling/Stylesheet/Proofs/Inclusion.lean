import Stylesheet.Proofs.ImportRounds
import Stylesheet.Proofs.Leniency
import Stylesheet.Proofs.Renaming
import Stylesheet.Proofs.Stamping

/-!
# An import means inclusion

Importing a style sheet is as good as writing its rules where the import stands.

* Replacing imports goes rule by rule, and an import costs one level more than the rules that it stands
  for (`Imports.expandRules_inclusion`, `Imports.expandRules_of_inclusion`).
* A root is rendered as the root that has its imports replaced (`Block.toCss_expanded`). That is a new
  block; it makes no difference, since stamps are only names and nothing has been looked up in the old
  one (`Block.toCss_anew`).
* **A style sheet compiles with an import as it does with the imported rules**
  (`Compiler.compile_inclusion`), but for the one level of depth that the import costs. The imported
  rules are the same blocks wherever they are imported, while rules that are written down again are
  other blocks; that shows only where selectors are not told apart by their texts
  (`Compiler.not_inclusion_misreadSample`).
-/

namespace Stylesheet

/-! ## Replacing imports

Replacing goes rule by rule, so an import among other rules can be looked at by itself. The tree that it
stands for is entered with one level less to go. -/

/-- Only an import of another style sheet is replaced. -/
lemma Node.eq_atImport_of_pendingImport? {n : Node} {path : String}
    (h : n.pendingImport? = some path) : n = .atImport path ∧ Node.isCssPath path = false := by
  cases n with
  | atImport other =>
    rw [Node.pendingImport?] at h
    split at h
    · cases h
    · next hcss =>
      cases h
      exact ⟨rfl, Bool.not_eq_true _ |>.mp hcss⟩
  | _ => cases h

namespace Imports

variable {env : Env} {levels : Nat}

/-- Rules are replaced from left to right. -/
lemma expandWith_append (serve : String → Block → Except EvalError (List Node)) (l₁ l₂ : List Node) :
    expandWith env serve (l₁ ++ l₂) = do
      let r₁ ← expandWith env serve l₁
      let r₂ ← expandWith env serve l₂
      return r₁ ++ r₂ := by
  simp [expandWith, List.mapM_append]

/-- Imports are replaced rule by rule. -/
lemma expandRules_append_eq_ok {l₁ l₂ r : List Node} :
    expandRules env levels (l₁ ++ l₂) = .ok r ↔
      ∃ r₁ r₂, expandRules env levels l₁ = .ok r₁ ∧ expandRules env levels l₂ = .ok r₂ ∧
        r = r₁ ++ r₂ := by
  have happend : expandRules env levels (l₁ ++ l₂) = do
      let r₁ ← expandRules env levels l₁
      let r₂ ← expandRules env levels l₂
      return r₁ ++ r₂ := by
    cases levels <;> exact expandWith_append _ l₁ l₂
  rw [happend]
  cases expandRules env levels l₁ with
  | error e => simp [bind, Except.bind]
  | ok r₁ =>
    cases expandRules env levels l₂ with
    | error e => simp [bind, Except.bind]
    | ok r₂ => simp [bind, Except.bind, pure, Except.pure, eq_comm]

/-- A rule that is no import to be replaced stays as it is. -/
lemma expandRules_singleton {rule : Node} (h : rule.pendingImport? = none) :
    expandRules env levels [rule] = .ok [rule] := by
  cases levels <;> simp [expandRules, expandWith, h, bind, Except.bind, pure, Except.pure]

/-- An import costs one level more than the rules that it stands for. -/
lemma expandRules_atImport_eq_ok {path : String} (hpath : Node.isCssPath path = false)
    {r : List Node} :
    expandRules env levels [.atImport path] = .ok r ↔
      ∃ tree left, env.importTree? path = some tree ∧ levels = left + 1 ∧
        expandRules env left tree.rules = .ok r := by
  have hpending : (Node.atImport path).pendingImport? = some path := by
    rw [Node.pendingImport?, hpath]
    rfl
  cases htree : env.importTree? path with
  | none => cases levels <;> simp [expandRules, expandWith, hpending, htree, bind, Except.bind]
  | some tree =>
    have hserve : ∀ serve, expandWith env serve [.atImport path] = serve path tree := by
      intro serve
      simp only [expandWith, List.mapM_cons, List.mapM_nil, hpending, htree]
      cases serve path tree <;> simp [bind, Except.bind, pure, Except.pure]
    cases levels <;> simp [expandRules, hserve]

/-- Where there is nothing to replace, the rules stay. -/
lemma expandRules_eq_self {rules : List Node} (h : ∀ rule ∈ rules, rule.pendingImport? = none) :
    expandRules env levels rules = .ok rules := by
  induction rules with
  | nil => cases levels <;> rfl
  | cons rule rest ih =>
    rw [← List.singleton_append, expandRules_append_eq_ok]
    exact ⟨[rule], rest, expandRules_singleton (h rule List.mem_cons_self),
      ih fun r hr => h r (List.mem_cons_of_mem rule hr), rfl⟩

/-- Where imports have been replaced, there is nothing left to replace. -/
lemma pendingImport?_of_expandRules {rules r : List Node} (h : expandRules env levels rules = .ok r)
    {rule : Node} (hrule : rule ∈ r) : rule.pendingImport? = none := by
  -- level by level, and in one level rule by rule
  induction levels using Nat.strongRecOn generalizing rules r with
  | ind levels ih =>
    induction rules generalizing r with
    | nil =>
      have hnil : expandRules env levels [] = .ok [] := expandRules_eq_self (by simp)
      rw [hnil] at h
      cases h
      cases hrule
    | cons first rest ihrest =>
      rw [← List.singleton_append, expandRules_append_eq_ok] at h
      obtain ⟨r₁, r₂, h₁, h₂, rfl⟩ := h
      rcases List.mem_append.mp hrule with hrule | hrule
      · cases hpending : first.pendingImport? with
        | none =>
          rw [expandRules_singleton hpending] at h₁
          cases h₁
          rw [List.mem_singleton.mp hrule]
          exact hpending
        | some path =>
          obtain ⟨rfl, hpath⟩ := Node.eq_atImport_of_pendingImport? hpending
          obtain ⟨tree, left, -, rfl, htree⟩ := (expandRules_atImport_eq_ok hpath).mp h₁
          exact ih left (Nat.lt_succ_self left) htree hrule
      · exact ihrest h₂ hrule

/-- With more levels to go, under lenient options, the same rules come in. -/
lemma expandRules_lenient {o o' : Options} (hdepth : o.maxDepth ≤ o'.maxDepth)
    (hunknown : o.unknownFunctions = o'.unknownFunctions ∨ o.unknownFunctions = .fault)
    {imports : List (String × Block)} {levels' : Nat} (hle : levels ≤ levels') {rules r : List Node}
    (h : expandRules (Compiler.env ⟨o, imports⟩) levels rules = .ok r) :
    expandRules (Compiler.env ⟨o', imports⟩) levels' rules = .ok r := by
  have hstep := expandRules_inStep (Compiler.env_lenient hdepth hunknown imports)
    (.inr ⟨hle, fun _ => .inl rfl⟩) (.of_forall₂ (Node.forall₂_alike_refl (fun _ => rfl) rules))
  rcases Lockstep.sameTree_ends hstep (fun _ _ halike => halike.eq) Memory.empty with ⟨e, he, -⟩ | hends
  · rw [outcome_liftExcept, h] at he
    cases he
  · rw [outcome_liftExcept, outcome_liftExcept, h] at hends
    exact congrArg Prod.fst hends

section inclusion

variable {o : Options} {imports : List (String × Block)} {path : String}
  (hpath : Node.isCssPath path = false) {tree : Block}
  (htree : imports.lookup path = some tree) {before after r : List Node}

include hpath htree

/-- What an import is replaced by, the imported rules are replaced by too. -/
lemma expandRules_inclusion
    (h : expandRules (Compiler.env ⟨o, imports⟩) levels (before ++ [.atImport path] ++ after) =
      .ok r) :
    expandRules (Compiler.env ⟨o, imports⟩) levels (before ++ tree.rules ++ after) = .ok r := by
  obtain ⟨front, r₃, hfront, h₃, rfl⟩ := expandRules_append_eq_ok.mp h
  obtain ⟨r₁, r₂, h₁, h₂, rfl⟩ := expandRules_append_eq_ok.mp hfront
  obtain ⟨served, left, hserved, rfl, htwo⟩ := (expandRules_atImport_eq_ok hpath).mp h₂
  obtain rfl : served = tree := Option.some.inj (hserved.symm.trans htree)
  have hmore := expandRules_lenient (Nat.le_refl o.maxDepth) (.inl rfl) (Nat.le_succ left) htwo
  exact expandRules_append_eq_ok.mpr ⟨r₁ ++ r₂, r₃,
    expandRules_append_eq_ok.mpr ⟨r₁, r₂, h₁, hmore, rfl⟩, h₃, rfl⟩

/-- And the other way round, with one level more. -/
lemma expandRules_of_inclusion {o' : Options} (hdepth : o.maxDepth ≤ o'.maxDepth)
    (hunknown : o.unknownFunctions = o'.unknownFunctions)
    (h : expandRules (Compiler.env ⟨o, imports⟩) levels (before ++ tree.rules ++ after) = .ok r) :
    expandRules (Compiler.env ⟨o', imports⟩) (levels + 1)
      (before ++ [.atImport path] ++ after) = .ok r := by
  obtain ⟨front, r₃, hfront, h₃, rfl⟩ := expandRules_append_eq_ok.mp h
  obtain ⟨r₁, r₂, h₁, h₂, rfl⟩ := expandRules_append_eq_ok.mp hfront
  have hmore : ∀ {rules r levels'}, levels ≤ levels' →
      expandRules (Compiler.env ⟨o, imports⟩) levels rules = .ok r →
      expandRules (Compiler.env ⟨o', imports⟩) levels' rules = .ok r :=
    fun hle h => expandRules_lenient hdepth (.inl hunknown) hle h
  have himport : expandRules (Compiler.env ⟨o', imports⟩) (levels + 1) [.atImport path] = .ok r₂ :=
    (expandRules_atImport_eq_ok hpath).mpr
      ⟨tree, levels, htree, rfl, hmore (Nat.le_refl levels) h₂⟩
  exact expandRules_append_eq_ok.mpr ⟨r₁ ++ r₂, r₃,
    expandRules_append_eq_ok.mpr ⟨r₁, r₂, hmore (Nat.le_succ levels) h₁, himport, rfl⟩,
    hmore (Nat.le_succ levels) h₃, rfl⟩

end inclusion

end Imports

/-! ## Rendering with imports replaced

Where a root imports anything, it is rendered as a new block, with a new stamp. To compare it with the
root that holds the rules itself, that root is renamed: its stamp becomes the new one, and all other
stamps stay. -/

/-- Which imports a root replaces is told by its rules. -/
lemma Block.importing?_eq_none {b : Block} (h : ∀ rule ∈ b.rules, rule.pendingImport? = none) :
    b.importing? = none := by
  unfold Block.importing?
  split
  · exact List.findSome?_eq_none_iff.mpr h
  · rfl

/-- A root with imports to replace becomes a new root. -/
lemma Block.outcome_source {env : Env} {b : Block} (hroot : b.isRoot = true)
    (hpending : (b.rules.any fun rule => rule.pendingImport?.isSome) = true) {r : List Node}
    (hexpand : Imports.expandRules env (env.options.maxDepth - env.depth) b.rules = .ok r)
    (m : Memory) :
    outcome (b.source env) m = (.ok { b with stamp := m.fresh.1, rules := r }, m.fresh.2) := by
  rw [Block.source, if_pos hroot, Block.expandImports, if_pos hpending, hexpand]
  rfl

/-- Rendering a root starts with its imports. -/
lemma Block.render_source {fuel : Nat} {env : Env} {scope : Scope} {context : List Path} {b b' : Block}
    {m m' : Memory} (hsource : outcome (b.source env) m = (.ok b', m'))
    (hroot : b.isRoot = true) (hroot' : b'.isRoot = true) (hdone : b'.importing? = none) :
    outcome (Block.render (fuel + 1) env scope context b) m =
      outcome (Block.render (fuel + 1) env scope context b') m' := by
  have hpaths : b'.innerPaths context = b.innerPaths context := by
    rw [Block.innerPaths, Block.innerPaths, if_pos hroot, if_pos hroot']
  have hsource' : outcome (b'.source env) m' = (.ok b', m') := by
    rw [Block.source_of_importing_eq_none env hdone]
    rfl
  rw [Block.render, Block.renderWith_eq, Block.renderWith_eq, outcome_bind_of_ok hsource,
    outcome_bind_of_ok hsource', hpaths]

/-- Imports that cannot be replaced stop a rendering. -/
lemma Block.exists_expandRules_eq_ok {fuel : Nat} {env : Env} {scope : Scope} {context : List Path}
    {b : Block} (hroot : b.isRoot = true) {m : Memory} {css : String}
    (h : (outcome (Block.render fuel env scope context b) m).1 = .ok css) :
    ∃ r, Imports.expandRules env (env.options.maxDepth - env.depth) b.rules = .ok r := by
  cases hexpand : Imports.expandRules env (env.options.maxDepth - env.depth) b.rules with
  | ok r => exact ⟨r, rfl⟩
  | error e =>
    have hpending : (b.rules.any fun rule => rule.pendingImport?.isSome) = true := by
      by_contra hnone
      have hself : Imports.expandRules env (env.options.maxDepth - env.depth) b.rules = .ok b.rules :=
        Imports.expandRules_eq_self (by simpa using hnone)
      rw [hself] at hexpand
      cases hexpand
    have hsource : outcome (b.source env) m = (.error e, m) := by
      rw [Block.source, if_pos hroot, Block.expandImports, if_pos hpending, hexpand]
      rfl
    cases fuel with
    | zero => cases h
    | succ fuel =>
      rw [Block.render, Block.renderWith_eq, outcome_bind_of_error hsource] at h
      cases h

/-- The stamps of two runs of which the second has a new block for the block `root`. -/
def anew (root size stamp : Nat) : Nat :=
  if stamp < size then if stamp = root then size else stamp else stamp + 1

/-- No two blocks become one. -/
lemma anew_injective (root size : Nat) : (anew root size).Injective := by
  intro s t hst
  unfold anew at hst
  split_ifs at hst <;> omega

/-- A root of which nothing was read may be taken for a new block. -/
lemma Memory.Renamed.anew {m : Memory} {root : Nat} (h : m.readings[root]? = some []) :
    m.Renamed (anew root m.readings.size) m.fresh.2 := by
  refine ⟨fun count => ?_, fun stamp => ?_⟩
  · have hlater : ¬m.readings.size + count < m.readings.size := by omega
    simp only [Stylesheet.anew, if_neg hlater, Memory.fresh, Array.size_push]
    omega
  · simp only [Stylesheet.anew, Memory.fresh]
    by_cases hknown : stamp < m.readings.size
    · by_cases hroot : stamp = root
      · rw [if_pos hknown, if_pos hroot, Array.getElem?_push_size, hroot, h]
      · rw [if_pos hknown, if_neg hroot, Array.getElem?_push, if_neg (by omega)]
    · rw [if_neg hknown, Array.getElem?_eq_none (by rw [Array.size_push]; omega),
        Array.getElem?_eq_none (by omega)]

section anew

variable {o : Options} {imports : List (String × Block)} {root : Nat} {m : Memory}
  (hunread : m.readings[root]? = some [])
  (himports : ∀ path tree, imports.lookup path = some tree →
    tree.StampsIn fun stamp => stamp < m.readings.size ∧ stamp ≠ root)

include hunread himports

/-- A root that nothing was looked up in might as well be a new block. The stamps of the two runs differ
by the renaming `anew`, under which both memories hold the same readings. -/
lemma Block.toCss_anew {rules : List Node}
    (hrules : ∀ rule ∈ rules, rule.StampsIn fun stamp => stamp < m.readings.size ∧ stamp ≠ root)
    (fuel : Nat) :
    (outcome (Block.toCss fuel (Compiler.env ⟨o, imports⟩) ⟨root, [], rules, .root⟩) m).1 =
      (outcome (Block.toCss fuel (Compiler.env ⟨o, imports⟩) ⟨m.fresh.1, [], rules, .root⟩)
        m.fresh.2).1 := by
  let f := anew root m.readings.size
  let L := Lockstep.renamed f (anew_injective root _)
  have hkept : ∀ stamp, stamp < m.readings.size ∧ stamp ≠ root → (L.variation ()).stamps stamp stamp := by
    rintro stamp ⟨hknown, hother⟩
    show stamp = f stamp
    simp only [f, anew, if_pos hknown, if_neg hother]
  have hroot : (L.variation ()).stamps root m.fresh.1 := by
    show m.fresh.1 = f root
    simp only [f, anew, if_pos (Array.getElem?_eq_some_iff.mp hunread).1, if_true]
    rfl
  have henv : L.Environments () (Compiler.env ⟨o, imports⟩) (Compiler.env ⟨o, imports⟩) :=
    .refl fun path tree htree => (alike_of_stampsIn hkept).2 tree (himports path tree htree)
  have halike : Block.Alike (L.variation ()) ⟨root, [], rules, .root⟩ ⟨m.fresh.1, [], rules, .root⟩ := by
    refine .intro hroot (.refl rules) (.of_forall₂ (List.forall₂_same.mpr fun rule hrule => ?_)) .root
    exact (alike_of_stampsIn hkept).1 rule (hrules rule hrule)
  exact ((Block.render_inStep L (.inl rfl) henv (fun _ tree _ => conforms_any.2 tree)
    (Scope.conforms_any []) .nil [] (conforms_any.2 _) halike).result_eq (.anew hunread)
    fun _ _ hexcused => hexcused).symm

end anew

/-- A root might as well be a new block where selectors are told apart. -/
lemma Block.toCss_anew_of_toldApart {F : Selector → Prop} (hapart : Selector.ToldApart F)
    (htail : ∀ s t, F s → s.tail? = some t → F t) {imports : List (String × Block)}
    (himports : ∀ path tree, (path, tree) ∈ imports → tree.Conforms (.lookingUp F)) {rules : List Node}
    (hroot : (⟨0, [], rules, .root⟩ : Block).Conforms (.lookingUp F)) (o : Options) (fuel : Nat) :
    (outcome (Block.toCss fuel (Compiler.env ⟨o, imports⟩) ⟨0, [], rules, .root⟩)
        Memory.empty.fresh.2).1 =
      (outcome (Block.toCss fuel (Compiler.env ⟨o, imports⟩) ⟨1, [], rules, .root⟩)
        Memory.empty.fresh.2.fresh.2).1 := by
  have hsame : ∀ b : Block, b.Alike .anyStamps b := (alike_refl fun _ => trivial).2
  have halike : Block.Alike .anyStamps ⟨0, [], rules, .root⟩ ⟨1, [], rules, .root⟩ :=
    (hsame ⟨0, [], rules, .root⟩).with_rules trivial (hsame ⟨0, [], rules, .root⟩).rules
  exact (Compiler.compileWithin_eq_of_toldApart hapart htail himports hroot
    (List.forall₂_same.mpr fun entry _ => ⟨rfl, hsame entry.2⟩) halike Memory.holds_empty.fresh
    Memory.holds_empty.fresh.fresh o fuel).symm

section inclusion

variable {imports : List (String × Block)} {root fuel : Nat} {m : Memory}

/-- A root is rendered as the new root that has its imports replaced. -/
lemma Block.toCss_expanded {o : Options} {rules r : List Node}
    (hanew : (∀ rule ∈ rules, rule.pendingImport? = none) →
      (outcome (Block.toCss fuel (Compiler.env ⟨o, imports⟩) ⟨root, [], rules, .root⟩) m).1 =
        (outcome (Block.toCss fuel (Compiler.env ⟨o, imports⟩) ⟨m.fresh.1, [], rules, .root⟩)
          m.fresh.2).1)
    (hexpand : Imports.expandRules (Compiler.env ⟨o, imports⟩) o.maxDepth rules = .ok r) :
    (outcome (Block.toCss fuel (Compiler.env ⟨o, imports⟩) ⟨root, [], rules, .root⟩) m).1 =
      (outcome (Block.toCss fuel (Compiler.env ⟨o, imports⟩) ⟨m.fresh.1, [], r, .root⟩)
        m.fresh.2).1 := by
  by_cases hpending : (rules.any fun rule => rule.pendingImport?.isSome) = true
  · have hsource := Block.outcome_source (b := ⟨root, [], rules, .root⟩) rfl hpending hexpand m
    have hdone : (⟨m.fresh.1, [], r, .root⟩ : Block).importing? = none :=
      Block.importing?_eq_none fun rule hrule => Imports.pendingImport?_of_expandRules hexpand hrule
    cases fuel with
    | zero => rfl
    | succ fuel => exact congrArg Prod.fst (Block.render_source hsource rfl rfl hdone)
  · have hnone : ∀ rule ∈ rules, rule.pendingImport? = none := by simpa using hpending
    have hself : Imports.expandRules (Compiler.env ⟨o, imports⟩) o.maxDepth rules = .ok rules :=
      Imports.expandRules_eq_self hnone
    obtain rfl : rules = r := Except.ok.inj (hself.symm.trans hexpand)
    exact hanew hnone

variable {path : String} (hpath : Node.isCssPath path = false) {tree : Block}
  (htree : imports.lookup path = some tree) {before after : List Node}
  (hanew : ∀ o, (outcome (Block.toCss fuel (Compiler.env ⟨o, imports⟩)
      ⟨root, [], before ++ tree.rules ++ after, .root⟩) m).1 =
    (outcome (Block.toCss fuel (Compiler.env ⟨o, imports⟩)
      ⟨m.fresh.1, [], before ++ tree.rules ++ after, .root⟩) m.fresh.2).1)
  {o : Options} {css : String}

include hpath

/-- There is an import to be replaced, so the root becomes a new one in any case. -/
lemma Compiler.compileWithin_imported {r : List Node}
    (hexpand : Imports.expandRules (Compiler.env ⟨o, imports⟩) o.maxDepth
      (before ++ [.atImport path] ++ after) = .ok r) :
    (outcome (Compiler.compileWithin fuel ⟨o, imports⟩
        ⟨root, [], before ++ [.atImport path] ++ after, .root⟩) m).1 =
      (outcome (Compiler.compileWithin fuel ⟨o, imports⟩ ⟨m.fresh.1, [], r, .root⟩) m.fresh.2).1 := by
  refine Block.toCss_expanded (fun hnone => ?_) hexpand
  have himport := hnone (.atImport path) (by simp)
  rw [Node.pendingImport?, hpath] at himport
  cases himport

include htree hanew

/-- What is compiled with the import is compiled with the rules in its place: both expand to the same
rules, and rendering goes on from a new block in either case. -/
lemma Compiler.included_of_imported
    (h : (outcome (Compiler.compileWithin fuel ⟨o, imports⟩
      ⟨root, [], before ++ [.atImport path] ++ after, .root⟩) m).1 = .ok css) :
    (outcome (Compiler.compileWithin fuel ⟨o, imports⟩
      ⟨root, [], before ++ tree.rules ++ after, .root⟩) m).1 = .ok css := by
  obtain ⟨r, hexpand⟩ := Block.exists_expandRules_eq_ok rfl h
  have hsame := Imports.expandRules_inclusion hpath htree hexpand
  have hinclude := Block.toCss_expanded (fun _ => hanew o) hsame
  exact hinclude.trans ((Compiler.compileWithin_imported hpath hexpand).symm.trans h)

/-- What is compiled with the rules in its place is compiled with the import, one level further down. The
higher limit of depth changes nothing else about what succeeds. -/
lemma Compiler.imported_of_included {o' : Options} (hdepth : o'.maxDepth = o.maxDepth + 1)
    (hunknown : o.unknownFunctions = o'.unknownFunctions)
    (h : (outcome (Compiler.compileWithin fuel ⟨o, imports⟩
      ⟨root, [], before ++ tree.rules ++ after, .root⟩) m).1 = .ok css) :
    (outcome (Compiler.compileWithin fuel ⟨o', imports⟩
      ⟨root, [], before ++ [.atImport path] ++ after, .root⟩) m).1 = .ok css := by
  obtain ⟨r, hexpand⟩ := Block.exists_expandRules_eq_ok rfl h
  have hle : o.maxDepth ≤ o'.maxDepth := by omega
  have hsame : Imports.expandRules (Compiler.env ⟨o', imports⟩) (o.maxDepth + 1)
      (before ++ [.atImport path] ++ after) = .ok r :=
    Imports.expandRules_of_inclusion hpath htree hle hunknown hexpand
  rw [← hdepth] at hsame
  -- the new root compiles under the lower limit, hence under the higher one
  have hnew := (Block.toCss_expanded (fun _ => hanew o) hexpand).symm.trans h
  have hlenient :
      outcome (Compiler.compileWithin fuel ⟨o', imports⟩ ⟨m.fresh.1, [], r, .root⟩) m.fresh.2 =
        outcome (Compiler.compileWithin fuel ⟨o, imports⟩ ⟨m.fresh.1, [], r, .root⟩) m.fresh.2 :=
    Compiler.compileWithin_eq_of_not_spares hle (.inl hunknown) fun e he => by
      cases he.symm.trans hnew
  rw [Compiler.compileWithin_imported hpath hsame, hlenient]
  exact hnew

end inclusion

/-! ## Compiling

Both style sheets expand to the same rules. Trees from outside are stamped first, and then the rules in
the place of the import are other blocks than those that are imported; this does not matter where
selectors are told apart. Trees with stamps can have the very same blocks in both places, and then nothing
is asked of the selectors. -/

/-- With the imported rules in its place, a root keeps to its grammar. -/
lemma Block.Conforms.inclusion {g : Grammar} {path : String} {tree : Block} (htree : tree.Conforms g)
    {before after : List Node}
    (h : (⟨0, [], before ++ [.atImport path] ++ after, .root⟩ : Block).Conforms g) :
    (⟨0, [], before ++ tree.rules ++ after, .root⟩ : Block).Conforms g := by
  refine .without_params rfl fun rule hrule => ?_
  simp only [List.mem_append] at hrule
  rcases hrule with (hrule | hrule) | hrule
  · exact h.of_mem_rules (by simp [hrule])
  · exact htree.of_mem_rules hrule
  · exact h.of_mem_rules (by simp [hrule])

/-- **An import means inclusion**, up to the memory. What a style sheet with an import compiles to, it
compiles to with the rules of the imported tree in its place; and the other way round, if the import is
given the one level of depth that it costs. This holds of trees from outside where the selectors that
are looked up are told apart by their texts. It holds whatever is looked up if the rules in the place
of the import are the very blocks of the imported tree, in a root that is new. -/
theorem Compiler.compile_inclusion {imports : List (String × Block)} {path : String}
    (hpath : Node.isCssPath path = false) {tree : Block} (htree : imports.lookup path = some tree)
    (before after : List Node) (unknown : UnknownFunctions) (depth : Nat) (css : String) :
    (∀ F : Selector → Prop, Selector.ToldApart F → (∀ s t, F s → s.tail? = some t → F t) →
      (∀ path tree, (path, tree) ∈ imports → tree.Conforms (.lookingUp F)) →
      (⟨0, [], before ++ [.atImport path] ++ after, .root⟩ : Block).Conforms (.lookingUp F) →
      (Compiler.compileTree ⟨⟨depth, unknown⟩, imports⟩
          ⟨0, [], before ++ [.atImport path] ++ after, .root⟩ = .ok css →
        Compiler.compileTree ⟨⟨depth, unknown⟩, imports⟩
          ⟨0, [], before ++ tree.rules ++ after, .root⟩ = .ok css) ∧
      (Compiler.compileTree ⟨⟨depth, unknown⟩, imports⟩
          ⟨0, [], before ++ tree.rules ++ after, .root⟩ = .ok css →
        Compiler.compileTree ⟨⟨depth + 1, unknown⟩, imports⟩
          ⟨0, [], before ++ [.atImport path] ++ after, .root⟩ = .ok css)) ∧
    ∀ (root : Nat) (m : Memory), m.readings[root]? = some [] →
      (∀ path tree, imports.lookup path = some tree →
        tree.StampsIn fun stamp => stamp < m.readings.size ∧ stamp ≠ root) →
      (∀ rule ∈ before ++ after,
        rule.StampsIn fun stamp => stamp < m.readings.size ∧ stamp ≠ root) →
      ∀ fuel : Nat,
      ((outcome (Compiler.compileWithin fuel ⟨⟨depth, unknown⟩, imports⟩
          ⟨root, [], before ++ [.atImport path] ++ after, .root⟩) m).1 = .ok css →
        (outcome (Compiler.compileWithin fuel ⟨⟨depth, unknown⟩, imports⟩
          ⟨root, [], before ++ tree.rules ++ after, .root⟩) m).1 = .ok css) ∧
      ((outcome (Compiler.compileWithin fuel ⟨⟨depth, unknown⟩, imports⟩
          ⟨root, [], before ++ tree.rules ++ after, .root⟩) m).1 = .ok css →
        (outcome (Compiler.compileWithin fuel ⟨⟨depth + 1, unknown⟩, imports⟩
          ⟨root, [], before ++ [.atImport path] ++ after, .root⟩) m).1 = .ok css) := by
  constructor
  · intro F hapart htail himports hroot
    obtain ⟨front, back, hsplit, -⟩ := List.lookup_eq_some_iff.mp htree
    have hincluded := (himports path tree (by simp [hsplit])).inclusion hroot
    -- where selectors are told apart, stamps do not matter, and neither does the stamp of the new root
    have hstamps := Compiler.compileTree_eq_of_toldApart hapart htail himports hroot
    have hstamps' := Compiler.compileTree_eq_of_toldApart hapart htail himports hincluded
    have hanew := fun o =>
      Block.toCss_anew_of_toldApart hapart htail himports hincluded o defaultFuel
    rw [hstamps, hstamps', hstamps]
    exact ⟨Compiler.included_of_imported hpath htree hanew,
      Compiler.imported_of_included hpath htree hanew rfl rfl⟩
  · intro root m hunread himports hrules fuel
    -- the same blocks stand in both style sheets; only the root is a new one
    have hincluded : ∀ rule ∈ before ++ tree.rules ++ after,
        rule.StampsIn fun stamp => stamp < m.readings.size ∧ stamp ≠ root := by
      intro rule hrule
      simp only [List.mem_append] at hrule
      rcases hrule with (hrule | hrule) | hrule
      · exact hrules rule (List.mem_append_left after hrule)
      · exact (himports path tree htree).of_mem_rules hrule
      · exact hrules rule (List.mem_append_right before hrule)
    have hanew := fun o : Options => Block.toCss_anew (o := o) hunread himports hincluded fuel
    exact ⟨Compiler.included_of_imported hpath htree hanew,
      Compiler.imported_of_included hpath htree hanew rfl rfl⟩

/-- A style sheet with a variable and a mixin, to be imported. -/
def Block.importedSample (stamp inner : Nat) : Block :=
  ⟨stamp, [], [
    .declaration (.plain "@w" (.text "wide")),
    .block ⟨inner, [⟨[⟨.descendant, ".m"⟩]⟩], [.declaration (.plain "width" (.var "@w"))], .plain⟩],
    .root⟩

/-- A block that calls the mixin. -/
def Node.callerSample (stamp : Nat) : Node :=
  .block ⟨stamp, [⟨[⟨.descendant, "a"⟩]⟩], [.mixin ⟨⟨[⟨.descendant, ".m"⟩]⟩, []⟩], .plain⟩

section samples

variable {P : Nat → Prop} {stamp inner : Nat}

/-- Its stamps are the two that it is given. -/
lemma Block.importedSample_stampsIn (hstamp : P stamp) (hinner : P inner) :
    (Block.importedSample stamp inner).StampsIn P := by
  refine .without_params rfl hstamp ?_
  simp only [importedSample, List.mem_cons, List.not_mem_nil, or_false, forall_eq_or_imp, forall_eq]
  constructor
  · refine .of_values rfl ?_
    simp only [Node.values, Declaration.plain, List.mem_singleton, forall_eq]
    exact .of_values rfl (by simp [Node.values])
  · refine .block (.without_params rfl hinner ?_)
    simp only [List.mem_singleton, forall_eq]
    refine .of_values rfl ?_
    simp only [Node.values, Declaration.plain, List.mem_singleton, forall_eq]
    exact .of_values rfl (by simp [Node.values])

/-- Its stamp is the one that it is given. -/
lemma Node.callerSample_stampsIn (hstamp : P stamp) : (Node.callerSample stamp).StampsIn P := by
  refine .block (.without_params rfl hstamp ?_)
  simp only [List.mem_singleton, forall_eq]
  exact .of_values rfl (by simp [Node.values])

/-- Nothing is looked up in it. -/
lemma Block.importedSample_conforms :
    (Block.importedSample 0 0).Conforms (.lookingUp Selector.Plain) := by
  refine .without_params rfl ?_
  simp only [importedSample, List.mem_cons, List.not_mem_nil, or_false, forall_eq_or_imp, forall_eq]
  constructor
  · exact .declaration trivial (.text _)
  · refine .block trivial (.without_params rfl ?_)
    simp only [List.mem_singleton, forall_eq]
    exact .declaration trivial (.var trivial _)

/-- A plain selector is looked up in it. -/
lemma Node.callerSample_conforms :
    (Node.callerSample 0).Conforms (.lookingUp Selector.Plain) .rule := by
  have hplain : (⟨[⟨.descendant, ".m"⟩]⟩ : Selector).Plain := ⟨⟨".m", by cbv⟩, by simp⟩
  refine .block trivial (.without_params rfl ?_)
  simp only [List.mem_singleton, forall_eq]
  exact .intro hplain (by simp [Node.values]) (by simp)

end samples

/-- The same of a style sheet that imports the one and holds the other. -/
lemma Block.callerSheet_conforms :
    (⟨0, [], [.atImport "p", .callerSample 0], .root⟩ : Block).Conforms
      (.lookingUp Selector.Plain) := by
  refine .without_params rfl ?_
  simp only [List.mem_cons, List.not_mem_nil, or_false, forall_eq_or_imp, forall_eq]
  exact ⟨.atImport trivial, Node.callerSample_conforms⟩

/-- The trees without stamps, and the same trees as four blocks. -/
theorem Compiler.compile_inclusion_importedSample :
    let imports := [("p", Block.importedSample 0 0)]
    let shared := [("p", Block.importedSample 1 2)]
    let m : Memory := ⟨Array.replicate 4 []⟩
    let css := ".m \x7b\n  width: wide;\n\x7d\na \x7b\n  width: wide;\n\x7d\n"
    Compiler.compileTree ⟨⟨1, .fault⟩, imports⟩ ⟨0, [], [.atImport "p", .callerSample 0], .root⟩ =
      .ok css ∧
    Compiler.compileTree ⟨⟨1, .fault⟩, imports⟩
      ⟨0, [], (Block.importedSample 0 0).rules ++ [.callerSample 0], .root⟩ = .ok css ∧
    Compiler.compileTree ⟨⟨2, .fault⟩, imports⟩ ⟨0, [], [.atImport "p", .callerSample 0], .root⟩ =
      .ok css ∧
    (outcome (Compiler.compileWithin 8 ⟨⟨1, .fault⟩, shared⟩
      ⟨0, [], (Block.importedSample 1 2).rules ++ [.callerSample 3], .root⟩) m).1 = .ok css := by
  intro imports shared m css
  have hpath : Node.isCssPath "p" = false := by decide
  have himports : ∀ path tree, (path, tree) ∈ imports →
      tree.Conforms (.lookingUp Selector.Plain) := by
    intro path tree hmem
    simp only [imports, List.mem_singleton, Prod.mk.injEq] at hmem
    rw [hmem.2]
    exact Block.importedSample_conforms
  have hshared : ∀ path tree, shared.lookup path = some tree →
      tree.StampsIn fun stamp => stamp < m.readings.size ∧ stamp ≠ 0 := by
    intro path tree htree
    simp only [shared, List.lookup_cons, List.lookup_nil] at htree
    split at htree
    · cases htree
      exact Block.importedSample_stampsIn (by simp [m]) (by simp [m])
    · cases htree
  have hcaller : ∀ rule ∈ [Node.callerSample 3],
      rule.StampsIn fun stamp => stamp < m.readings.size ∧ stamp ≠ 0 := by
    simp only [List.mem_singleton, forall_eq]
    exact Node.callerSample_stampsIn (by simp [m])
  have hcss : Compiler.compileTree ⟨⟨1, .fault⟩, imports⟩
      ⟨0, [], [.atImport "p", .callerSample 0], .root⟩ = .ok css := by
    decide +kernel
  have hcss' : (outcome (Compiler.compileWithin 8 ⟨⟨1, .fault⟩, shared⟩
      ⟨0, [], [.atImport "p", .callerSample 3], .root⟩) m).1 = .ok css := by
    decide +kernel
  have htrees := (Compiler.compile_inclusion hpath rfl [] [.callerSample 0] .fault 1 css).1
    Selector.Plain Selector.toldApart_plain (fun _ _ hs ht => hs.tail ht) himports
    Block.callerSheet_conforms
  have hblocks := (Compiler.compile_inclusion hpath rfl [] [.callerSample 3] .fault 1 css).2 0 m rfl
    hshared hcaller 8
  exact ⟨hcss, htrees.1 hcss, htrees.2 (htrees.1 hcss), hblocks.1 hcss'⟩

/-- A style sheet in which `a&b` is looked up, to be imported. -/
def Block.misreadSample : Block :=
  ⟨0, [], [.block ⟨0, [⟨[⟨.descendant, "#x"⟩]⟩], [
    .block ⟨0, [⟨[⟨.descendant, "a"⟩]⟩], [
      .block ⟨0, [⟨[⟨.descendant, "b"⟩]⟩], [.declaration (.plain "width" (.text "two"))], .plain⟩],
      .plain⟩,
    .block ⟨0, [⟨[⟨.descendant, "ab"⟩]⟩], [.declaration (.plain "width" (.text "one"))], .plain⟩,
    .block ⟨0, [⟨[⟨.descendant, ".p"⟩]⟩], [
      .mixin ⟨⟨[⟨.descendant, "a"⟩, ⟨.parent, "b"⟩]⟩, []⟩], .plain⟩], .plain⟩], .root⟩

/-- A block that looks up `ab` in what is imported. -/
def Node.readerSample : Node :=
  .block ⟨0, [⟨[⟨.descendant, ".q"⟩]⟩], [
    .mixin ⟨⟨[⟨.descendant, "#x"⟩, ⟨.descendant, "ab"⟩]⟩, []⟩], .plain⟩

/-- Selectors must be told apart: what was looked up in the first `#x` shows in the second one if that
is the same block, and does not if it is a copy. -/
theorem Compiler.not_inclusion_misreadSample :
    let c : Compiler := { imports := [("p", .misreadSample)] }
    let before : List Node := [.atImport "p", .readerSample]
    (c.compileTree ⟨0, [], before ++ [.atImport "p"], .root⟩).isOk = true ∧
      c.compileTree ⟨0, [], before ++ Block.misreadSample.rules, .root⟩ ≠
        c.compileTree ⟨0, [], before ++ [.atImport "p"], .root⟩ := by
  decide +kernel

end Stylesheet
