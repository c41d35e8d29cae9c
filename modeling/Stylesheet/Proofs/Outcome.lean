import Mathlib.Data.List.Forall2
import Mathlib.Tactic.Common
import Stylesheet.Evaluation.Env

/-!
# What a computation ends with

A computation is run from a memory; it ends with a value or for a cause, and it leaves a memory in
either case. `outcome` is that pair, and this file says how outcomes are put together.

* **Postconditions.** `Ensures x P E`: from every memory, a value that `x` ends with satisfies `P`,
  and a cause that `x` ends for satisfies `E`. The lemmas follow the ways in which the rules of
  evaluation are written: `Ensures.bind` for one step after another, `Ensures.mapM` for a list taken
  from left to right, `Ensures.guarded` for the depth guard.
* **Concurrence.** `Concurs R x y`: both end with values, which are related, or for the same cause.
* **Inversion.** `outcome_bind_ok`: a sequence that ends with a value has a first part that does;
  `outcome_mapM_ok`: so has a list taken from left to right, for each of its elements.

Nothing is said of the memory: the postconditions used with `Ensures` are about trees and causes, and
they have to hold whatever the readings of selector texts are.
-/

namespace Stylesheet

variable {α β : Type}

/-- How a computation ends from a memory, and the memory that it leaves. -/
def outcome (x : EvalM α) (m : Memory) : Except EvalError α × Memory :=
  x.run.run m

/-- A value at hand leaves the memory as it is. -/
@[simp] lemma outcome_pure (a : α) (m : Memory) : outcome (pure a) m = (.ok a, m) := rfl

/-- Stopping leaves the memory as it is. -/
@[simp] lemma outcome_throw (e : EvalError) (m : Memory) :
    outcome (throw e : EvalM α) m = (.error e, m) := rfl

/-- Work on the memory never stops. -/
@[simp] lemma outcome_liftState (x : StateM Memory α) (m : Memory) :
    outcome (liftM x : EvalM α) m = (.ok (x.run m).1, (x.run m).2) := rfl

/-- A calculation that can stop leaves the memory as it is. -/
@[simp] lemma outcome_liftExcept (x : Except EvalError α) (m : Memory) :
    outcome (liftM x : EvalM α) m = (x, m) := rfl

/-- Steps that read and change the memory only may be lifted one by one. -/
lemma liftState_bind (x : StateM Memory α) (k : α → StateM Memory β) :
    (liftM (x >>= k) : EvalM β) = liftM x >>= fun a => liftM (k a) := rfl

/-- The same for the elements of a list. -/
lemma liftState_mapM (f : α → StateM Memory β) (l : List α) :
    (liftM (l.mapM f) : EvalM (List β)) = l.mapM fun a => liftM (f a) := by
  induction l with
  | nil => rfl
  | cons a l ih =>
    simp only [List.mapM_cons, liftState_bind, ih]
    rfl

/-- Steps that can only stop may be lifted one by one. -/
lemma liftExcept_bind (x : Except EvalError α) (k : α → Except EvalError β) :
    (liftM (x >>= k) : EvalM β) = liftM x >>= fun a => liftM (k a) := by
  cases x <;> rfl

/-- After a value the next step runs in the memory that was left. -/
lemma outcome_bind_of_ok {x : EvalM α} {k : α → EvalM β} {m m' : Memory} {a : α}
    (h : outcome x m = (.ok a, m')) : outcome (x >>= k) m = outcome (k a) m' := by
  unfold outcome at h ⊢
  rw [ExceptT.run_bind, StateT.run_bind, h]
  rfl

/-- After a cause nothing else runs. -/
lemma outcome_bind_of_error {x : EvalM α} {k : α → EvalM β} {m m' : Memory} {e : EvalError}
    (h : outcome x m = (.error e, m')) : outcome (x >>= k) m = (.error e, m') := by
  unfold outcome at h ⊢
  rw [ExceptT.run_bind, StateT.run_bind, h]
  rfl

/-- A sequence that ends with a value is one value after another. -/
lemma outcome_bind_ok {x : EvalM α} {k : α → EvalM β} {m m'' : Memory} {b : β} :
    outcome (x >>= k) m = (.ok b, m'') ↔
      ∃ a m', outcome x m = (.ok a, m') ∧ outcome (k a) m' = (.ok b, m'') := by
  rcases h : outcome x m with ⟨_ | a, m'⟩
  · simp [outcome_bind_of_error h]
  · simp [outcome_bind_of_ok h]

/-- A sequence ends for the cause of its first part, or of its second part after a value. -/
lemma outcome_bind_error {x : EvalM α} {k : α → EvalM β} {m m'' : Memory} {e : EvalError} :
    outcome (x >>= k) m = (.error e, m'') ↔
      outcome x m = (.error e, m'') ∨
        ∃ a m', outcome x m = (.ok a, m') ∧ outcome (k a) m' = (.error e, m'') := by
  rcases h : outcome x m with ⟨_ | a, m'⟩
  · simp [outcome_bind_of_error h]
  · simp [outcome_bind_of_ok h]

/-- A list that ends with values was taken from left to right, each element from some memory. -/
lemma outcome_mapM_ok {f : α → EvalM β} {as : List α} {bs : List β} {m m' : Memory}
    (h : outcome (as.mapM f) m = (.ok bs, m')) :
    List.Forall₂ (fun a b => ∃ m₁ m₂, outcome (f a) m₁ = (.ok b, m₂)) as bs := by
  induction as generalizing m bs with
  | nil =>
    rw [List.mapM_nil] at h
    cases h
    exact .nil
  | cons a as ih =>
    rw [List.mapM_cons] at h
    obtain ⟨b, m₁, hb, h⟩ := outcome_bind_ok.mp h
    obtain ⟨rest, m₂, hrest, h⟩ := outcome_bind_ok.mp h
    cases h
    exact .cons ⟨m, m₁, hb⟩ (ih hrest)

/-! ## Concurrence

For results of computations without memory. Causes are compared by equality, values by any relation. -/

/-- Both end with values, which are related, or for the same cause. -/
inductive Concurs (R : α → β → Prop) : Except EvalError α → Except EvalError β → Prop
  | ok {a : α} {b : β} (h : R a b) : Concurs R (.ok a) (.ok b)
  | error (e : EvalError) : Concurs R (.error e) (.error e)

/-- A result concurs with itself. -/
lemma concurs_rfl (x : Except EvalError α) : Concurs Eq x x := by
  cases x with
  | ok a => exact .ok rfl
  | error e => exact .error e

namespace Concurs

variable {γ δ : Type}

/-- Results that concur in being equal are equal. -/
lemma eq {x y : Except EvalError α} (h : Concurs Eq x y) : x = y := by
  cases h with
  | ok h => rw [h]
  | error e => rfl

/-- Steps that concur one after the other. -/
lemma bind {R : α → β → Prop} {S : γ → δ → Prop} {x : Except EvalError α} {y : Except EvalError β}
    {k : α → Except EvalError γ} {l : β → Except EvalError δ} (hx : Concurs R x y)
    (hk : ∀ a b, R a b → Concurs S (k a) (l b)) : Concurs S (x >>= k) (y >>= l) := by
  cases hx with
  | ok hab => exact hk _ _ hab
  | error e => exact .error e

/-- Results that concur in a transitive relation. -/
lemma trans {R : α → α → Prop} (hR : ∀ {a b c}, R a b → R b c → R a c) {x y z : Except EvalError α}
    (h : Concurs R x y) (h' : Concurs R y z) : Concurs R x z := by
  cases h with
  | ok hab =>
    cases h' with
    | ok hbc => exact .ok (hR hab hbc)
  | error e =>
    cases h' with
    | error e => exact .error e

end Concurs

/-! ## Postconditions

`Always` is for computations that only use the memory, `Ensures` for those that can stop as well. -/

/-- From every memory, `x` gives a value that satisfies `P`. -/
def Always (x : StateM Memory α) (P : α → Prop) : Prop :=
  ∀ m, P (x.run m).1

namespace Always

variable {x : StateM Memory α} {k : α → StateM Memory β} {P : α → Prop} {R : β → Prop}

/-- A value at hand has the property if it has it. -/
lemma pure {a : α} (h : P a) : Always (pure a) P :=
  fun _ => h

/-- One step after another: what the first one always gives is what the second starts from. -/
lemma bind (hx : Always x P) (hk : ∀ a, P a → Always (k a) R) : Always (x >>= k) R :=
  fun m => hk _ (hx m) _

/-- What is made of the result. -/
lemma map {f : α → β} (hx : Always x P) (hf : ∀ a, P a → R (f a)) : Always (f <$> x) R :=
  fun m => hf _ (hx m)

/-- Less may be known of the result. -/
lemma mono {Q : α → Prop} (hx : Always x P) (h : ∀ a, P a → Q a) : Always x Q :=
  fun m => h _ (hx m)

/-- Nothing is known of any result. -/
lemma trivial (x : StateM Memory α) : Always x fun _ => True :=
  fun _ => True.intro

end Always

/-- From every memory, `x` ends with a value that satisfies `P` or for a cause that satisfies `E`. -/
structure Ensures (x : EvalM α) (P : α → Prop) (E : EvalError → Prop) : Prop where
  /-- What holds of a value. -/
  value : ∀ {m m' : Memory} {a : α}, outcome x m = (.ok a, m') → P a
  /-- What holds of a cause. -/
  cause : ∀ {m m' : Memory} {e : EvalError}, outcome x m = (.error e, m') → E e

namespace Ensures

variable {x : EvalM α} {k : α → EvalM β} {P Q : α → Prop} {R : β → Prop} {E : EvalError → Prop}

/-- A value at hand is the only outcome. -/
lemma pure {a : α} (h : P a) : Ensures (pure a) P E := by
  constructor
  · intro m m' b hb
    cases hb
    exact h
  · intro m m' e he
    cases he

/-- The cause is the only outcome. -/
lemma throw {e : EvalError} (h : E e) : Ensures (throw e) P E := by
  constructor
  · intro m m' b hb
    cases hb
  · intro m m' e' he
    cases he
    exact h

/-- Work on the memory ensures what it always gives, and no cause. -/
lemma liftState {x : StateM Memory α} (h : Always x P) : Ensures (liftM x) P E := by
  constructor
  · intro m m' a ha
    cases ha
    exact h m
  · intro m m' e he
    cases he

/-- A calculation ensures what its values and its causes have in common. -/
lemma liftExcept {x : Except EvalError α} (hok : ∀ a, x = .ok a → P a)
    (herror : ∀ e, x = .error e → E e) : Ensures (liftM x) P E := by
  constructor
  · intro m m' a ha
    exact hok a (Prod.ext_iff.mp ha).1
  · intro m m' e he
    exact herror e (Prod.ext_iff.mp he).1

/-- One step after another: a cause can come from either of them. -/
lemma bind (hx : Ensures x P E) (hk : ∀ a, P a → Ensures (k a) R E) : Ensures (x >>= k) R E := by
  constructor
  · intro m m'' b hb
    obtain ⟨a, m', ha, hb⟩ := outcome_bind_ok.mp hb
    exact (hk a (hx.value ha)).value hb
  · intro m m'' e he
    obtain he | ⟨a, m', ha, he⟩ := outcome_bind_error.mp he
    · exact hx.cause he
    · exact (hk a (hx.value ha)).cause he

/-- Nothing is asked of any computation. -/
lemma trivial (x : EvalM α) : Ensures x (fun _ => True) fun _ => True :=
  ⟨fun _ => True.intro, fun _ => True.intro⟩

/-- Less may be known of the values. -/
lemma mono (hx : Ensures x P E) (h : ∀ a, P a → Q a) : Ensures x Q E :=
  ⟨fun ha => h _ (hx.value ha), hx.cause⟩

/-- A list is taken from left to right; every result satisfies what each step ensures. -/
lemma mapM {f : α → EvalM β} {l : List α} (h : ∀ a ∈ l, Ensures (f a) R E) :
    Ensures (l.mapM f) (fun bs => ∀ b ∈ bs, R b) E := by
  induction l with
  | nil =>
    rw [List.mapM_nil]
    exact pure (by simp)
  | cons a l ih =>
    rw [List.mapM_cons]
    refine bind (h a List.mem_cons_self) fun b hb => ?_
    refine bind (ih fun c hc => h c (List.mem_cons_of_mem a hc)) fun bs hbs => ?_
    refine pure fun c hc => ?_
    rcases List.mem_cons.mp hc with rfl | hc
    · exact hb
    · exact hbs c hc

/-- The guard ends for its own cause or as the guarded part does, one level deeper. -/
lemma guarded {env : Env} {context : String} {run : Env → EvalM α}
    (hlimit : E (.recursionLimit env.options.maxDepth context)) (hrun : Ensures (run env.deeper) P E) :
    Ensures (env.guarded context run) P E := by
  unfold Env.guarded
  split
  · exact hrun
  · exact throw hlimit

end Ensures

end Stylesheet
