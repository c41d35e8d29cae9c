import Mathlib.Logic.Relation
import Stylesheet.Proofs.Inclusion

/-!
# The walk over imports

Replacing the imports of a style sheet is a walk over its rules. Where the walk meets an import it goes
over the rules of the tree that the import stands for, and then on. Where it is at the moment is told by an
*address*: the index of a rule, and before it the indices of the imports that were entered. The walk takes
the addresses in their lexicographic order. That is document order, depth first, with an import ahead of
what it brings in.

* `Imports.Reaches`: the walk can come to a rule at an address, at some depth of the guard.
* `Imports.Visit.failure?`: why it cannot go on from there. Nothing is served for the path, or else the
  guard is at its limit.
* `Imports.expandRules_eq_report`: replacing imports gives the first failure on the walk, or else the rules
  met on it less the imports that were entered.
* **How replacing imports ends** (`Block.expandImports_walks`), said of addresses only: no trace of how the
  walk is programmed is left. A circle of imports always ends with a failure.
-/

namespace Stylesheet

namespace Imports

/-! ## What the walk can come to

The specification. It says at which addresses there are rules and what stands in the way at an address,
but not in which order anything is done. -/

/-- A rule that is met on the walk. -/
structure Visit where
  /-- The indices of the imports that were entered, and that of the rule. -/
  address : List Nat
  /-- The depth of the guard at which the rule is met. -/
  depth : Nat
  /-- The rule. -/
  rule : Node

namespace Visit

/-- The visit as seen from the rules among which an import with that index was entered. -/
def within (index : Nat) (v : Visit) : Visit :=
  { v with address := index :: v.address }

/-- The cause for which the walk stops at a rule. A path that leads nowhere is noticed before the limit
is. -/
def failure? (env : Env) (v : Visit) : Option EvalError :=
  match v.rule.pendingImport? with
  | none => none
  | some path =>
    match env.importTree? path with
    | none => some (.importNotFound path)
    | some _ =>
      if env.options.maxDepth ≤ v.depth then some (.recursionLimit env.options.maxDepth path) else none

/-- Whether the walk stops at a rule does not depend on where the rule is seen from. -/
@[simp] lemma failure?_within (env : Env) (index : Nat) (v : Visit) :
    (v.within index).failure? env = v.failure? env := rfl

/-- The rule is the same, wherever it is seen from. -/
@[simp] lemma rule_within (index : Nat) (v : Visit) : (v.within index).rule = v.rule := rfl

/-- From outside the import, its index comes first in the address. -/
@[simp] lemma address_within (index : Nat) (v : Visit) :
    (v.within index).address = index :: v.address := rfl

end Visit

/-- From rules at some depth of the guard, the walk can come to a visit: to one of the rules, or, from an import
that is served and not too deep, to what comes in there. -/
inductive Reaches (env : Env) : (depth : Nat) → List Node → Visit → Prop
  | here {depth index : Nat} {rules : List Node} {rule : Node} (hrule : rules[index]? = some rule) :
      Reaches env depth rules ⟨[index], depth, rule⟩
  | inside {depth index : Nat} {rules : List Node} {rule : Node} {path : String} {tree : Block}
      {v : Visit} (hrule : rules[index]? = some rule) (hpath : rule.pendingImport? = some path)
      (htree : env.importTree? path = some tree) (hroom : depth < env.options.maxDepth)
      (hv : Reaches env (depth + 1) tree.rules v) : Reaches env depth rules (v.within index)

/-- `e` is the failure at the first address at which the walk fails. -/
def FailsFirst (env : Env) (depth : Nat) (rules : List Node) (e : EvalError) : Prop :=
  ∃ v, Reaches env depth rules v ∧ v.failure? env = some e ∧
    ∀ w, Reaches env depth rules w → w.address < v.address → w.failure? env = none

/-- The rules that the walk can come to, in the order of their addresses and each as often as it is met,
less the imports that are to be replaced. -/
def Splices (env : Env) (depth : Nat) (rules result : List Node) : Prop :=
  ∃ visited : List Visit, visited.map Visit.rule = result ∧
    (visited.map Visit.address).Pairwise (· < ·) ∧
    ∀ v, v ∈ visited ↔ Reaches env depth rules v ∧ v.rule.pendingImport? = none

/-- The tree that is served for the first path imports the second one. -/
def Leads (env : Env) (path next : String) : Prop :=
  ∃ tree, env.importTree? path = some tree ∧ ∃ rule ∈ tree.rules, rule.pendingImport? = some next

/-- Imports lead from the rules into a circle. -/
def Circular (env : Env) (rules : List Node) : Prop :=
  ∃ rule ∈ rules, ∃ path knot, rule.pendingImport? = some path ∧
    Relation.ReflTransGen (Leads env) path knot ∧ Relation.TransGen (Leads env) knot knot

/-! ## The walk as a list

The same visits as a list, by recursion on the levels of depth that are left. It is this list that the
walk is compared with. -/

/-- The tree that a rule is to be replaced by. -/
def imported? (env : Env) (rule : Node) : Option Block :=
  rule.pendingImport?.bind env.importTree?

/-- The visits among rules, where `inner` are those in an imported tree. -/
def visitsWith (env : Env) (inner : Block → List Visit) (depth : Nat) (entry : Node × Nat) :
    List Visit :=
  ⟨[entry.2], depth, entry.1⟩ ::
    ((imported? env entry.1).toList.flatMap inner).map (Visit.within entry.2)

/-- All visits of the walk in order, with so many levels of depth left. -/
def visits (env : Env) : (levels depth : Nat) → List Node → List Visit
  | 0, depth, rules => rules.zipIdx.flatMap (visitsWith env (fun _ => []) depth)
  | levels + 1, depth, rules =>
    rules.zipIdx.flatMap (visitsWith env (fun tree => visits env levels (depth + 1) tree.rules) depth)

/-- A visit is one of the rules, or a visit in the tree of an import that is one of them. -/
lemma mem_flatMap_visitsWith {env : Env} {inner : Block → List Visit} {depth : Nat}
    {rules : List Node} {v : Visit} :
    v ∈ rules.zipIdx.flatMap (visitsWith env inner depth) ↔
      ∃ index rule, rules[index]? = some rule ∧ (v = ⟨[index], depth, rule⟩ ∨
        ∃ path tree w, rule.pendingImport? = some path ∧ env.importTree? path = some tree ∧
          w ∈ inner tree ∧ v = w.within index) := by
  simp only [List.mem_flatMap, Prod.exists, List.mem_zipIdx_iff_getElem?, visitsWith, List.mem_cons,
    List.mem_map, Option.mem_toList, imported?, Option.bind_eq_some_iff]
  constructor
  · rintro ⟨rule, index, hrule, rfl | ⟨w, ⟨tree, ⟨path, hpath, htree⟩, hw⟩, rfl⟩⟩
    · exact ⟨index, rule, hrule, .inl rfl⟩
    · exact ⟨index, rule, hrule, .inr ⟨path, tree, w, hpath, htree, hw, rfl⟩⟩
  · rintro ⟨index, rule, hrule, rfl | ⟨path, tree, w, hpath, htree, hw, rfl⟩⟩
    · exact ⟨rule, index, hrule, .inl rfl⟩
    · exact ⟨rule, index, hrule, .inr ⟨w, ⟨tree, ⟨path, hpath, htree⟩, hw⟩, rfl⟩⟩

/-- The list holds what the walk can come to, by induction on the levels that are left. -/
lemma mem_visits {env : Env} {levels depth : Nat} (hlevels : env.options.maxDepth - depth = levels)
    {rules : List Node} {v : Visit} :
    v ∈ visits env levels depth rules ↔ Reaches env depth rules v := by
  induction levels generalizing depth rules v with
  | zero =>
    rw [visits, mem_flatMap_visitsWith]
    constructor
    · rintro ⟨index, rule, hrule, rfl | ⟨_, _, _, _, _, hw, _⟩⟩
      · exact .here hrule
      · cases hw
    · intro h
      cases h with
      | here hrule => exact ⟨_, _, hrule, .inl rfl⟩
      | inside _ _ _ hroom _ => omega
  | succ levels ih =>
    rw [visits, mem_flatMap_visitsWith]
    constructor
    · rintro ⟨index, rule, hrule, rfl | ⟨path, tree, w, hpath, htree, hw, rfl⟩⟩
      · exact .here hrule
      · exact .inside hrule hpath htree (by omega) ((ih (by omega)).mp hw)
    · intro h
      cases h with
      | here hrule => exact ⟨_, _, hrule, .inl rfl⟩
      | inside hrule hpath htree _ hv =>
        exact ⟨_, _, hrule, .inr ⟨_, _, _, hpath, htree, (ih (by omega)).mpr hv, rfl⟩⟩

/-- The addresses in `visitsWith` begin with the index of the rule. -/
lemma exists_cons_of_mem_visitsWith {env : Env} {inner : Block → List Visit} {depth : Nat}
    {entry : Node × Nat} {v : Visit} (h : v ∈ visitsWith env inner depth entry) :
    ∃ rest, v.address = entry.2 :: rest := by
  rcases List.mem_cons.mp h with rfl | h
  · exact ⟨[], rfl⟩
  · obtain ⟨w, -, rfl⟩ := List.mem_map.mp h
    exact ⟨w.address, rfl⟩

/-- Where each imported tree is visited in order, so are the rules. An import comes before what it brings
in, since its address is a prefix; two rules are told apart by the first index. -/
lemma pairwise_flatMap_visitsWith {env : Env} {inner : Block → List Visit}
    (hinner : ∀ tree, (inner tree).Pairwise fun v w => v.address < w.address)
    (hne : ∀ tree, ∀ v ∈ inner tree, v.address ≠ []) (depth : Nat) (rules : List Node) :
    (rules.zipIdx.flatMap (visitsWith env inner depth)).Pairwise
      fun v w => v.address < w.address := by
  have hindices : rules.zipIdx.Pairwise fun e e' => e.2 < e'.2 := by
    rw [← List.pairwise_map (f := Prod.snd), List.zipIdx_map_snd]
    exact List.pairwise_lt_range'
  rw [List.pairwise_flatMap]
  constructor
  · -- an import comes before what it brings in
    rintro ⟨rule, index⟩ -
    unfold visitsWith
    cases imported? env rule with
    | none => exact List.pairwise_singleton _ _
    | some tree =>
      simp only [Option.toList_some, List.flatMap_singleton]
      refine List.Pairwise.cons ?_ ?_
      · intro v hv
        obtain ⟨w, hw, rfl⟩ := List.mem_map.mp hv
        obtain ⟨first, rest, haddress⟩ := List.exists_cons_of_ne_nil (hne tree w hw)
        rw [Visit.address_within, haddress]
        exact List.Lex.cons List.Lex.nil
      · rw [List.pairwise_map]
        exact (hinner tree).imp fun h => List.cons_lt_cons_self.mpr h
  · -- from one rule to a later one, by the index
    refine hindices.imp ?_
    intro e e' hlt v hv w hw
    obtain ⟨rest, hrest⟩ := exists_cons_of_mem_visitsWith hv
    obtain ⟨rest', hrest'⟩ := exists_cons_of_mem_visitsWith hw
    rw [hrest, hrest']
    exact List.Lex.rel hlt

/-- Every visit has an address. -/
lemma address_ne_nil_of_mem_visits {env : Env} {levels depth : Nat} {rules : List Node} {v : Visit}
    (h : v ∈ visits env levels depth rules) : v.address ≠ [] := by
  have hcons : ∀ {inner : Block → List Visit},
      v ∈ rules.zipIdx.flatMap (visitsWith env inner depth) → v.address ≠ [] := by
    intro inner hv
    obtain ⟨entry, -, hv⟩ := List.mem_flatMap.mp hv
    obtain ⟨rest, hrest⟩ := exists_cons_of_mem_visitsWith hv
    rw [hrest]
    exact List.cons_ne_nil _ _
  cases levels <;> exact hcons h

/-- The list is in the order of the addresses. -/
lemma pairwise_visits (env : Env) (levels depth : Nat) (rules : List Node) :
    (visits env levels depth rules).Pairwise fun v w => v.address < w.address := by
  induction levels generalizing depth rules with
  | zero => exact pairwise_flatMap_visitsWith (fun _ => .nil) (by simp) depth rules
  | succ levels ih =>
    exact pairwise_flatMap_visitsWith (fun tree => ih (depth + 1) tree.rules)
      (fun tree v hv => address_ne_nil_of_mem_visits hv) depth rules

/-! ## Replacing imports follows the walk

`report` makes of a list of visits what replacing imports makes of the rules: the first failure if there
is one, and else the rules that stay. -/

/-- What becomes of visits: the first failure among them, or else their rules less the imports. -/
def report (env : Env) (visited : List Visit) : Except EvalError (List Node) :=
  match visited.findSome? (Visit.failure? env) with
  | some e => .error e
  | none => .ok ((visited.map Visit.rule).filter fun rule => rule.pendingImport?.isNone)

/-- Visits are reported one after the other, up to the first failure. -/
lemma report_append (env : Env) (l₁ l₂ : List Visit) :
    report env (l₁ ++ l₂) = do
      let r₁ ← report env l₁
      let r₂ ← report env l₂
      return r₁ ++ r₂ := by
  unfold report
  rw [List.findSome?_append]
  cases l₁.findSome? (Visit.failure? env) with
  | some e => rfl
  | none =>
    cases l₂.findSome? (Visit.failure? env) with
    | some e => rfl
    | none => simp [bind, Except.bind, pure, Except.pure]

/-- An address says nothing about what becomes of a rule. -/
lemma report_within (env : Env) (index : Nat) (visited : List Visit) :
    report env (visited.map (Visit.within index)) = report env visited := by
  unfold report
  rw [List.findSome?_map, List.map_map]
  rfl

/-- A rule that stays. -/
lemma report_kept {env : Env} {v : Visit} (h : v.rule.pendingImport? = none) :
    report env [v] = .ok [v.rule] := by
  have hfailure : v.failure? env = none := by rw [Visit.failure?, h]
  simp [report, hfailure, h]

/-- An import at which the walk stops. -/
lemma report_failing {env : Env} {v : Visit} {e : EvalError} (h : v.failure? env = some e)
    (rest : List Visit) : report env (v :: rest) = .error e := by
  rw [report, List.findSome?_cons, h]

/-- An import that is entered leaves nothing of itself. -/
lemma report_entered {env : Env} {v : Visit} {path : String} (hpath : v.rule.pendingImport? = some path)
    (h : v.failure? env = none) (rest : List Visit) : report env (v :: rest) = report env rest := by
  rw [report, List.findSome?_cons, h, report]
  simp [hpath]

/-- Rule by rule, imports are replaced as the walk reports it, if they are so in the imported trees. One
that leads nowhere is reported where it stands, before anything behind it. -/
lemma expandWith_eq_report {env : Env} {serve : String → Block → Except EvalError (List Node)}
    {inner : Block → List Visit} {depth : Nat}
    (hserve : ∀ index rule path tree, rule.pendingImport? = some path →
      env.importTree? path = some tree →
      serve path tree = report env (⟨[index], depth, rule⟩ :: inner tree))
    (rules : List Node) (start : Nat) :
    expandWith env serve rules =
      report env ((rules.zipIdx start).flatMap (visitsWith env inner depth)) := by
  induction rules generalizing start with
  | nil => rfl
  | cons rule rest ih =>
    have hone : expandWith env serve [rule] = report env (visitsWith env inner depth (rule, start)) := by
      cases hpending : rule.pendingImport? with
      | none =>
        have hnone : imported? env rule = none := by rw [imported?, hpending]; rfl
        rw [visitsWith, hnone]
        refine Eq.trans ?_ (report_kept hpending).symm
        simp [expandWith, hpending, bind, Except.bind, pure, Except.pure]
      | some path =>
        have himported : imported? env rule = env.importTree? path := by rw [imported?, hpending]; rfl
        cases htree : env.importTree? path with
        | none =>
          have hfailure : Visit.failure? env ⟨[start], depth, rule⟩ = some (.importNotFound path) := by
            simp only [Visit.failure?, hpending, htree]
          rw [visitsWith, report_failing hfailure]
          simp [expandWith, hpending, htree, bind, Except.bind]
        | some tree =>
          have hsingle : expandWith env serve [rule] = serve path tree := by
            simp only [expandWith, List.mapM_cons, List.mapM_nil, hpending, htree]
            cases serve path tree <;> simp [bind, Except.bind, pure, Except.pure]
          rw [hsingle, hserve start rule path tree hpending htree, visitsWith, himported, htree]
          simp only [Option.toList_some, List.flatMap_singleton]
          rw [← List.singleton_append, report_append, ← List.singleton_append (l := List.map _ _),
            report_append, report_within]
    rw [← List.singleton_append, expandWith_append, List.singleton_append, List.zipIdx_cons,
      List.flatMap_cons, report_append, hone, ih (start + 1)]

/-- **Replacing imports follows the walk.** -/
theorem expandRules_eq_report {env : Env} {levels depth : Nat}
    (hlevels : env.options.maxDepth - depth = levels) (rules : List Node) :
    expandRules env levels rules = report env (visits env levels depth rules) := by
  induction levels generalizing depth rules with
  | zero =>
    refine expandWith_eq_report (fun index rule path tree hpath htree => ?_) rules 0
    refine (report_failing ?_ []).symm
    simp only [Visit.failure?, hpath, htree]
    exact if_pos (by omega)
  | succ levels ih =>
    refine expandWith_eq_report (fun index rule path tree hpath htree => ?_) rules 0
    have hfailure : Visit.failure? env ⟨[index], depth, rule⟩ = none := by
      simp only [Visit.failure?, hpath, htree]
      exact if_neg (by omega)
    rw [report_entered hpath hfailure]
    exact ih (by omega) tree.rules

/-- Replacing imports fails for the first failure on the walk: the report goes through the visits in the
order of their addresses, and these are all that the walk can come to. -/
lemma expandRules_eq_error_iff {env : Env} {depth : Nat} {rules : List Node} {e : EvalError} :
    expandRules env (env.options.maxDepth - depth) rules = .error e ↔ FailsFirst env depth rules e := by
  rw [expandRules_eq_report rfl]
  have hreport : report env (visits env (env.options.maxDepth - depth) depth rules) = .error e ↔
      (visits env (env.options.maxDepth - depth) depth rules).findSome? (Visit.failure? env) = some e := by
    unfold report
    split <;> simp [*]
  have hordered := pairwise_visits env (env.options.maxDepth - depth) depth rules
  rw [hreport, List.findSome?_eq_some_iff]
  constructor
  · rintro ⟨before, v, after, hsplit, hv, hbefore⟩
    rw [hsplit, List.pairwise_append, List.pairwise_cons] at hordered
    refine ⟨v, ?_, hv, fun w hw hlt => ?_⟩
    · rw [← mem_visits rfl, hsplit]
      simp
    · -- what has a smaller address than `v` stands before it
      rw [← mem_visits rfl, hsplit] at hw
      rcases List.mem_append.mp hw with hw | hw
      · exact hbefore w hw
      · rcases List.mem_cons.mp hw with rfl | hw
        · exact absurd hlt (List.lt_irrefl _)
        · exact absurd hlt (List.lt_asymm (hordered.2.1.1 w hw))
  · rintro ⟨v, hreaches, hv, hfirst⟩
    obtain ⟨before, after, hsplit⟩ := List.append_of_mem ((mem_visits rfl).mpr hreaches)
    rw [hsplit, List.pairwise_append] at hordered
    refine ⟨before, v, after, hsplit, hv, fun w hw => ?_⟩
    apply hfirst w
    · rw [← mem_visits rfl, hsplit]
      exact List.mem_append_left _ hw
    · exact hordered.2.2 w hw v List.mem_cons_self

/-- Replacing imports gives rules exactly if there is no failure on the walk. -/
lemma exists_expandRules_eq_ok_iff {env : Env} {depth : Nat} {rules : List Node} :
    (∃ r, expandRules env (env.options.maxDepth - depth) rules = .ok r) ↔
      ∀ v, Reaches env depth rules v → v.failure? env = none := by
  have hmem : ∀ v, Reaches env depth rules v ↔
      v ∈ visits env (env.options.maxDepth - depth) depth rules := fun v => (mem_visits rfl).symm
  simp only [hmem]
  rw [expandRules_eq_report rfl, ← List.findSome?_eq_none_iff]
  unfold report
  split <;> simp [*]

/-- The rules that replacing imports gives are those met on the walk. -/
lemma splices_of_expandRules {env : Env} {depth : Nat} {rules r : List Node}
    (h : expandRules env (env.options.maxDepth - depth) rules = .ok r) : Splices env depth rules r := by
  rw [expandRules_eq_report rfl] at h
  unfold report at h
  split at h
  · cases h
  · cases h
    refine ⟨(visits env (env.options.maxDepth - depth) depth rules).filter
      fun v => v.rule.pendingImport?.isNone, ?_, ?_, ?_⟩
    · rw [List.filter_map]
      rfl
    · rw [List.pairwise_map]
      exact (pairwise_visits env _ depth rules).filter _
    · intro v
      rw [List.mem_filter, mem_visits rfl, Option.isNone_iff_eq_none]

/-! ## Depth and circles

Each entered import is one level of depth and one index of the address. In a circle there is always one
more to enter, so the limit is reached. -/

/-- Each import that is entered is one level of depth, and none is entered at the limit. -/
lemma Reaches.depth_eq {env : Env} {depth : Nat} {rules : List Node} {v : Visit}
    (h : Reaches env depth rules v) :
    v.depth + 1 = depth + v.address.length ∧ v.depth ≤ max depth env.options.maxDepth := by
  induction h with
  | here => exact ⟨rfl, Nat.le_max_left _ _⟩
  | inside _ _ _ hroom _ ih =>
    obtain ⟨hlength, hbound⟩ := ih
    simp only [Visit.within, List.length_cons]
    omega

/-- Where every import leads on to another one, the walk comes to a failure. -/
lemma exists_failure_of_leads {env : Env} {endless : String → Prop}
    (hendless : ∀ path, endless path → ∃ next, endless next ∧ Leads env path next) {levels depth : Nat}
    (hlevels : env.options.maxDepth - depth = levels) {rules : List Node} {rule : Node} {path : String}
    (hrule : rule ∈ rules) (hpath : rule.pendingImport? = some path) (h : endless path) :
    ∃ v e, Reaches env depth rules v ∧ v.failure? env = some e := by
  obtain ⟨index, hindex⟩ := List.getElem?_of_mem hrule
  obtain ⟨next, hnext, tree, htree, inner, hinner, hinnerPath⟩ := hendless path h
  induction levels generalizing depth rules rule path index next tree inner with
  | zero =>
    refine ⟨⟨[index], depth, rule⟩, .recursionLimit env.options.maxDepth path, .here hindex, ?_⟩
    simp only [Visit.failure?, hpath, htree]
    exact if_pos (by omega)
  | succ levels ih =>
    obtain ⟨innerIndex, hinnerIndex⟩ := List.getElem?_of_mem hinner
    obtain ⟨after, hafter, tree', htree', rule', hrule', hrulePath'⟩ := hendless next hnext
    obtain ⟨v, e, hv, he⟩ := ih (by omega : env.options.maxDepth - (depth + 1) = levels) hinner
      hinnerPath hnext innerIndex hinnerIndex after hafter tree' htree' rule' hrule' hrulePath'
    exact ⟨v.within index, e, .inside hindex hpath htree (by omega) hv, he⟩

/-- From rules that lead into a circle, the walk comes to a failure. -/
lemma Circular.exists_failure {env : Env} {rules : List Node} (h : Circular env rules) (depth : Nat) :
    ∃ v e, Reaches env depth rules v ∧ v.failure? env = some e := by
  obtain ⟨rule, hrule, path, knot, hpath, hto, hround⟩ := h
  -- whatever leads to the knot leads on to something that does
  have hendless : ∀ p, Relation.ReflTransGen (Leads env) p knot →
      ∃ next, Relation.ReflTransGen (Leads env) next knot ∧ Leads env p next := by
    intro p hp
    rcases Relation.ReflTransGen.cases_head hp with rfl | ⟨next, hleads, hrest⟩
    · obtain ⟨next, hleads, hrest⟩ := Relation.TransGen.head'_iff.mp hround
      exact ⟨next, hrest, hleads⟩
    · exact ⟨next, hrest, hleads⟩
  exact exists_failure_of_leads hendless rfl hrule hpath hto

end Imports

/-! ## How replacing imports ends -/

/-- The block that results has the new rules and is otherwise the old one. A block without imports is
handed on as it is, as if there had been nothing to replace. -/
lemma Block.outcome_expandImports (env : Env) (b : Block) (m : Memory) :
    ∃ stamp, (outcome (b.expandImports env) m).1 =
      (Imports.expandRules env (env.options.maxDepth - env.depth) b.rules).map
        fun rules => { b with stamp := stamp, rules := rules } := by
  unfold Block.expandImports
  split
  · refine ⟨m.fresh.1, ?_⟩
    cases Imports.expandRules env (env.options.maxDepth - env.depth) b.rules <;> rfl
  · next hnone =>
    refine ⟨b.stamp, ?_⟩
    rw [Imports.expandRules_eq_self]
    · cases b
      rfl
    · intro rule hrule
      rw [← Option.not_isSome_iff_eq_none]
      exact fun hsome => hnone (List.any_eq_true.mpr ⟨rule, hrule, hsome⟩)

/-- **How replacing imports ends.** For a cause exactly if that is the first failure on the walk; with a
block exactly if there is no failure on the walk, and the rules of that block are then those met on the
walk, spliced in order, without the imports that were entered. The walk goes no deeper than the limit. Where
imports lead into a circle, it fails. -/
theorem Block.expandImports_walks (env : Env) (b : Block) (m : Memory) :
    (∀ e, (outcome (b.expandImports env) m).1 = .error e ↔
      Imports.FailsFirst env env.depth b.rules e) ∧
    ((∃ r, (outcome (b.expandImports env) m).1 = .ok r) ↔
      ∀ v, Imports.Reaches env env.depth b.rules v → v.failure? env = none) ∧
    (∀ r, (outcome (b.expandImports env) m).1 = .ok r →
      Imports.Splices env env.depth b.rules r.rules ∧
        (∀ rule ∈ r.rules, rule.pendingImport? = none) ∧
        r.selectors = b.selectors ∧ r.kind = b.kind) ∧
    (∀ v, Imports.Reaches env env.depth b.rules v →
      v.depth + 1 = env.depth + v.address.length ∧ v.depth ≤ max env.depth env.options.maxDepth) ∧
    (Imports.Circular env b.rules →
      ∃ e, (outcome (b.expandImports env) m).1 = .error e) := by
  obtain ⟨stamp, hb⟩ := b.outcome_expandImports env m
  have herror : ∀ e, (outcome (b.expandImports env) m).1 = .error e ↔
      Imports.FailsFirst env env.depth b.rules e := by
    intro e
    rw [hb, ← Imports.expandRules_eq_error_iff]
    cases Imports.expandRules env (env.options.maxDepth - env.depth) b.rules <;> simp [Except.map]
  have hok : (∃ r, (outcome (b.expandImports env) m).1 = .ok r) ↔
      ∀ v, Imports.Reaches env env.depth b.rules v → v.failure? env = none := by
    rw [hb, ← Imports.exists_expandRules_eq_ok_iff]
    cases Imports.expandRules env (env.options.maxDepth - env.depth) b.rules <;> simp [Except.map]
  refine ⟨herror, hok, fun r hr => ?_, fun v hv => hv.depth_eq, fun hcircular => ?_⟩
  · rw [hb] at hr
    cases hrules : Imports.expandRules env (env.options.maxDepth - env.depth) b.rules with
    | error e =>
      rw [hrules] at hr
      cases hr
    | ok rules =>
      rw [hrules] at hr
      cases hr
      exact ⟨Imports.splices_of_expandRules hrules,
        fun rule hrule => Imports.pendingImport?_of_expandRules hrules hrule, rfl, rfl⟩
  · obtain ⟨v, e, hv, hfailure⟩ := hcircular.exists_failure env.depth
    cases h : (outcome (b.expandImports env) m).1 with
    | error e => exact ⟨e, rfl⟩
    | ok r =>
      have hnone := hok.mp ⟨r, h⟩ v hv
      rw [hfailure] at hnone
      cases hnone

/-- Trees that import each other, of which one also imports a path that leads nowhere; and trees without a
circle. -/
def Env.importSample (depth : Nat) : Env where
  options := { maxDepth := 3 }
  importer := some fun path => [("a", Block.ofRules [.atImport "b", .text "a"]),
    ("b", .ofRules [.atImport "a", .atImport "lost"]),
    ("c", .ofRules [.atImport "d", .atImport "c.css"]), ("d", .ofRules [.text "d"])].lookup path
  depth := depth

/-- The circle is ended by the limit, before the lost path is come to. A tree that is imported from two
places comes in twice. -/
theorem Block.expandImports_walks_importSample :
    Imports.Circular (.importSample 0) [.atImport "a"] ∧
      (∃ e, (outcome ((Block.ofRules [.atImport "a"]).expandImports (.importSample 0)) .empty).1 =
        .error e) ∧
      Imports.FailsFirst (.importSample 0) 0 [.atImport "a"] (.recursionLimit 3 "b") ∧
      Imports.Splices (.importSample 1) 1 [.atImport "c", .atImport "d"]
        [.text "d", .atImport "c.css", .text "d"] := by
  have hab : Imports.Leads (.importSample 0) "a" "b" :=
    ⟨.ofRules [.atImport "b", .text "a"], rfl, .atImport "b", by simp [Block.ofRules], rfl⟩
  have hba : Imports.Leads (.importSample 0) "b" "a" :=
    ⟨.ofRules [.atImport "a", .atImport "lost"], rfl, .atImport "a", by simp [Block.ofRules], rfl⟩
  have hcircular : Imports.Circular (.importSample 0) [.atImport "a"] :=
    ⟨.atImport "a", by simp, "a", "a", rfl, .refl, .head hab (.single hba)⟩
  have hcircle := Block.expandImports_walks (.importSample 0) (.ofRules [.atImport "a"]) .empty
  have hsplice := Block.expandImports_walks (.importSample 1)
    (.ofRules [.atImport "c", .atImport "d"]) .empty
  exact ⟨hcircular, hcircle.2.2.2.2 hcircular, (hcircle.1 _).mp rfl, (hsplice.2.2.1 _ rfl).1⟩

end Stylesheet
