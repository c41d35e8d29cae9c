import Stylesheet.Compiler
import Stylesheet.Proofs.Fuel

/-!
# Lenient options compile more

Options can be more lenient in two ways: the depth limit is higher, or unknown functions are printed
where they were faults. A run under lenient options takes the steps of the run under strict ones, up
to the point where the strict run meets its limit or such a fault. Nothing recovers from a cause, and
nothing looks at how many levels are left, so the text does not depend on the options:

* **What compiles under strict options compiles under lenient ones, to the same text**
  (`Compiler.compile_lenient`), and the same memory is left.
* Every cause for which a strict run stops is the cause of the lenient run, but for the two that the
  options are about.
-/

namespace Stylesheet

/-- The causes for which a run may stop under the options `o` and not under more lenient `o'`. -/
def Options.Spares (o o' : Options) (e : EvalError) : Prop :=
  e.category = .recursionLimit ∨
    o.unknownFunctions ≠ o'.unknownFunctions ∧ ∃ name, e = .unknownFunction name

section lenient

variable {o o' : Options} (hdepth : o.maxDepth ≤ o'.maxDepth)
  (hunknown : o.unknownFunctions = o'.unknownFunctions ∨ o.unknownFunctions = .fault)

include hdepth hunknown

/-- Under lenient options, a run on the same tree is in step with the strict one. -/
lemma Compiler.env_lenient (imports : List (String × Block)) :
    (Lockstep.sameTree (o.Spares o')).Environments () (Compiler.env ⟨o, imports⟩)
      (Compiler.env ⟨o', imports⟩) where
  depth := rfl
  limit := .inr ⟨hdepth, fun _ => .inl rfl⟩
  unknown := by
    by_cases hsame : o.unknownFunctions = o'.unknownFunctions
    · exact .inl hsame.symm
    · exact .inr ⟨hunknown.resolve_left hsame, fun name => .inr ⟨hsame, name, rfl⟩⟩
  imports := (Lockstep.environments_sameTree (Compiler.env ⟨o, imports⟩)).imports

/-- A run that is not spared anything is the same under lenient options. -/
lemma Compiler.compileWithin_eq_of_not_spares {imports : List (String × Block)} {fuel : Nat}
    {root : Block} {m : Memory}
    (h : ∀ e, (outcome (Compiler.compileWithin fuel ⟨o, imports⟩ root) m).1 = .error e →
      ¬o.Spares o' e) :
    outcome (Compiler.compileWithin fuel ⟨o', imports⟩ root) m =
      outcome (Compiler.compileWithin fuel ⟨o, imports⟩ root) m := by
  have henv := Compiler.env_lenient hdepth hunknown imports
  exact (Block.render_sameTree (.inl rfl) henv [] [] root m).resolve_left
    fun ⟨e, he, hspared⟩ => h e he hspared

/-- A tree from outside compiles to the same result, unless it stopped for a cause that the more lenient
options spare. -/
lemma Compiler.compileTree_eq_of_not_spares {imports : List (String × Block)} {root : Block}
    (h : ∀ e, Compiler.compileTree ⟨o, imports⟩ root = .error e → ¬o.Spares o' e) :
    Compiler.compileTree ⟨o', imports⟩ root = Compiler.compileTree ⟨o, imports⟩ root := by
  -- the stamps of the trees do not depend on the options
  let stamped := (Compiler.stamped ⟨{}, imports⟩).run Memory.empty
  let stampedRoot := root.stamped.run stamped.2
  have hstamped : ∀ options, Compiler.compileTree ⟨options, imports⟩ root =
      (outcome (Compiler.compile ⟨options, stamped.1.imports⟩ stampedRoot.1) stampedRoot.2).1 :=
    fun _ => rfl
  rw [hstamped, hstamped]
  rw [hstamped] at h
  exact congrArg Prod.fst (Compiler.compileWithin_eq_of_not_spares hdepth hunknown h)

end lenient

/-- Only the limit of depth is spared, and unknown functions if they are passed through. -/
lemma Options.not_spares {o o' : Options} {e : EvalError} (hcategory : e.category ≠ .recursionLimit)
    (hpolicy : o.unknownFunctions = o'.unknownFunctions ∨ ∀ name, e ≠ .unknownFunction name) :
    ¬o.Spares o' e := by
  rintro (hlimit | ⟨hdiffer, name, hname⟩)
  · exact hcategory hlimit
  · exact hpolicy.elim hdiffer fun hother => hother name hname

/-- **Lenient options only ever compile more.** If the limit is at least as high, and unknown functions
are treated alike or were faults, then a text stays the same text, and so does every cause but the
limit and, where they are now printed, unknown functions. This holds of trees that come from outside,
and of stamped trees with any fuel and from any memory, which is left the same too. -/
theorem Compiler.compile_lenient {o o' : Options} (hdepth : o.maxDepth ≤ o'.maxDepth)
    (hunknown : o.unknownFunctions = o'.unknownFunctions ∨ o.unknownFunctions = .fault)
    (imports : List (String × Block)) (root : Block) :
    (∀ css, Compiler.compileTree ⟨o, imports⟩ root = .ok css →
      Compiler.compileTree ⟨o', imports⟩ root = .ok css) ∧
    (∀ e, Compiler.compileTree ⟨o, imports⟩ root = .error e → e.category ≠ .recursionLimit →
      (o.unknownFunctions = o'.unknownFunctions ∨ ∀ name, e ≠ .unknownFunction name) →
      Compiler.compileTree ⟨o', imports⟩ root = .error e) ∧
    ∀ fuel m m',
      (∀ css, outcome (Compiler.compileWithin fuel ⟨o, imports⟩ root) m = (.ok css, m') →
        outcome (Compiler.compileWithin fuel ⟨o', imports⟩ root) m = (.ok css, m')) ∧
      (∀ e, outcome (Compiler.compileWithin fuel ⟨o, imports⟩ root) m = (.error e, m') →
        e.category ≠ .recursionLimit →
        (o.unknownFunctions = o'.unknownFunctions ∨ ∀ name, e ≠ .unknownFunction name) →
        outcome (Compiler.compileWithin fuel ⟨o', imports⟩ root) m = (.error e, m')) := by
  refine ⟨fun css hcss => ?_, fun e he hcategory hpolicy => ?_, fun fuel m m' =>
    ⟨fun css hcss => ?_, fun e he hcategory hpolicy => ?_⟩⟩
  · rw [Compiler.compileTree_eq_of_not_spares hdepth hunknown (by simp [hcss]), hcss]
  · have hnot := Options.not_spares hcategory hpolicy
    rw [Compiler.compileTree_eq_of_not_spares hdepth hunknown (by simpa [he] using hnot), he]
  · rw [Compiler.compileWithin_eq_of_not_spares hdepth hunknown (by simp [hcss]), hcss]
  · have hnot := Options.not_spares hcategory hpolicy
    rw [Compiler.compileWithin_eq_of_not_spares hdepth hunknown (by simpa [he] using hnot), he]

/-- A style sheet with a property that goes through two variables and a mixin. -/
def Block.nestedSample (value : Node) : Block :=
  ⟨0, [], [
    .declaration (.plain "@x" (.var "@y")),
    .declaration (.plain "@y" value),
    .block ⟨0, [⟨[⟨.descendant, ".m"⟩]⟩], [.declaration (.plain "width" (.var "@x"))], .plain⟩,
    .block ⟨0, [⟨[⟨.descendant, "a"⟩]⟩], [.mixin ⟨⟨[⟨.descendant, ".m"⟩]⟩, []⟩], .plain⟩], .root⟩

/-- One style sheet that compiles with a depth of two, and one that has the same fault under either
options. -/
theorem Compiler.compile_lenient_nestedSample :
    let strict : Options := ⟨2, .fault⟩
    let lenient : Options := ⟨64, .passThrough⟩
    let css := ".m \x7b\n  width: wide;\n\x7d\na \x7b\n  width: wide;\n\x7d\n"
    strict.maxDepth ≤ lenient.maxDepth ∧ strict.unknownFunctions = .fault ∧
    Compiler.compileTree ⟨strict, []⟩ (.nestedSample (.text "wide")) = .ok css ∧
    Compiler.compileTree ⟨lenient, []⟩ (.nestedSample (.text "wide")) = .ok css ∧
    Compiler.compileTree ⟨strict, []⟩ (.nestedSample (.var "@z")) =
      .error (.undefinedVariable "@z") ∧
    Compiler.compileTree ⟨lenient, []⟩ (.nestedSample (.var "@z")) =
      .error (.undefinedVariable "@z") := by
  intro strict lenient css
  have hdepth : strict.maxDepth ≤ lenient.maxDepth := by decide
  have htext : Compiler.compileTree ⟨strict, []⟩ (.nestedSample (.text "wide")) = .ok css := by
    decide +kernel
  have hcause : Compiler.compileTree ⟨strict, []⟩ (.nestedSample (.var "@z")) =
      .error (.undefinedVariable "@z") := by
    decide +kernel
  have hwide := Compiler.compile_lenient hdepth (.inr rfl) [] (.nestedSample (.text "wide"))
  have hundefined := Compiler.compile_lenient hdepth (.inr rfl) [] (.nestedSample (.var "@z"))
  exact ⟨hdepth, rfl, htext, hwide.1 css htext, hcause,
    hundefined.2.1 _ hcause (by decide) (.inr fun name => by simp)⟩

end Stylesheet
