import Mathlib.Data.List.Induction
import Stylesheet.Evaluation.Binding
import Stylesheet.Proofs.Outcome

/-!
# How arguments meet parameters

Binding takes the arguments from left to right and then the parameters from left to right. What it makes
of them is said here without the loop:

* an argument is for a slot (`Argument.slot?`), and the last argument for a slot decides what is in it
  (`MixinCall.filled`);
* parameters whose slots stay empty are *unfilled* (`MixinCall.unfilled`), and take their defaults;
* `MixinCall.Binds` says when binding succeeds and which declarations it gives, `MixinCall.Fails` says
  when it fails and for which cause: that of the count, else that of the first argument that offends,
  else that of the first unfilled parameter that lacks a value.

**Binding does exactly that** (`MixinCall.outcome_bind_iff`). The evaluator is any evaluator, and values are
evaluated one after the other, each in the memory that the one before has left.
-/

namespace Stylesheet

namespace Argument

/-- The slot that an argument is for: the one at its position, or that of the first parameter of its
name. -/
def slot? (params : List Parameter) (position : Nat) : Argument → Option Nat
  | positional _ => some position
  | named name _ => params.findIdx? fun p => p.name == name

/-- No positional argument stands behind a named one. -/
def Orderly (args : List Argument) : Prop :=
  args.Pairwise fun a b => a.name?.isSome = true → b.name?.isSome = true

/-- Every name is that of a parameter. -/
def Known (params : List Parameter) (args : List Argument) : Prop :=
  ∀ a ∈ args, ∀ name, a.name? = some name → ∃ p ∈ params, p.name = name

/-- The place of the last argument that is for a slot. -/
def lastFor? (params : List Parameter) (args : List Argument) (slot : Nat) : Option Nat :=
  (args.zipIdx.filter fun entry => entry.1.slot? params entry.2 == some slot).getLast?.map Prod.snd

end Argument

namespace MixinCall

/-- What is in the slots: the value of the last argument that is for the slot, if there is one. -/
def filled (params : List Parameter) (args : List Argument) (values : List Node) :
    List (Option Node) :=
  (List.range params.length).map fun slot =>
    (Argument.lastFor? params args slot).bind fun place => values[place]?

/-- The parameters that no argument is for. -/
def unfilled (params : List Parameter) (args : List Argument) : List Parameter :=
  (params.zipIdx.filter fun entry => (Argument.lastFor? params args entry.2).isNone).map Prod.fst

/-- The values of all slots: what is in the slot, and else the next of the defaults. -/
def complete : List (Option Node) → List Node → List Node
  | [], _ => []
  | some value :: slots, defaults => value :: complete slots defaults
  | none :: slots, default :: defaults => default :: complete slots defaults
  | none :: _, [] => []

section spec

variable (ev : Evaluator) (env : Env) (scope : Scope)

/-- The arguments are as they should be, and their values evaluate one after the other. -/
structure Taken (params : List Parameter) (args : List Argument) (values : List Node)
    (m m' : Memory) : Prop where
  /-- Named arguments come last. -/
  orderly : Argument.Orderly args
  /-- Named arguments name parameters. -/
  known : Argument.Known params args
  /-- The values evaluate. -/
  values : outcome ((args.map Argument.value).mapM (ev.node env scope)) m = (.ok values, m')

/-- The parameters have defaults, which evaluate one after the other. -/
structure Supplied (params : List Parameter) (defaults : List Node) (m m' : Memory) : Prop where
  /-- There are defaults. -/
  default : ∀ p ∈ params, p.default?.isSome = true
  /-- The defaults evaluate. -/
  values : outcome ((params.filterMap Parameter.default?).mapM (ev.node env scope)) m =
    (.ok defaults, m')

/-- Binding succeeds: one declaration for each parameter, in order. -/
inductive Binds (params : List Parameter) (args : List Argument) : List Node → Memory → Memory → Prop
  | intro {values defaults : List Node} {m m₁ m' : Memory} (count : args.length ≤ params.length)
      (taken : Taken ev env scope params args values m m₁)
      (supplied : Supplied ev env scope (unfilled params args) defaults m₁ m') :
      Binds params args
        (List.zipWith (fun p value => .declaration (.plain p.name value)) params
          (complete (filled params args values) defaults)) m m'

variable (call : MixinCall)

/-- What is wrong with an argument that comes after others. -/
inductive Offends (params : List Parameter) (before : List Argument) (arg : Argument) (m : Memory) :
    EvalError → Memory → Prop
  | unknown {name : String} (hname : arg.name? = some name) (hparams : ∀ p ∈ params, p.name ≠ name) :
      Offends params before arg m (.unknownParameter name call.toSource) m
  | misplaced (hname : arg.name? = none) (hbefore : ∃ a ∈ before, a.name?.isSome = true) :
      Offends params before arg m (.positionalAfterNamed call.toSource) m
  | faulty {e : EvalError} {m' : Memory} (horderly : Argument.Orderly (before ++ [arg]))
      (hknown : Argument.Known params [arg])
      (hvalue : outcome (ev.node env scope arg.value) m = (.error e, m')) :
      Offends params before arg m e m'

/-- What is wrong with a parameter that no argument is for. -/
inductive Lacks (p : Parameter) (m : Memory) : EvalError → Memory → Prop
  | missing (hdefault : p.default? = none) : Lacks p m (.missingArgument p.name call.toSource) m
  | faulty {d : Node} {e : EvalError} {m' : Memory} (hdefault : p.default? = some d)
      (hvalue : outcome (ev.node env scope d) m = (.error e, m')) : Lacks p m e m'

/-- Binding fails: for the count of arguments, else for the first argument that offends, else for the
first unfilled parameter that lacks a value. -/
inductive Fails (params : List Parameter) (args : List Argument) (m : Memory) :
    EvalError → Memory → Prop
  | count (h : params.length < args.length) :
      Fails params args m (.tooManyArguments params.length call.toSource args.length) m
  | argument {before after : List Argument} {arg : Argument} {values : List Node} {m₁ m' : Memory}
      {e : EvalError} (hcount : args.length ≤ params.length) (hargs : args = before ++ arg :: after)
      (hbefore : Taken ev env scope params before values m m₁)
      (h : Offends ev env scope call params before arg m₁ e m') : Fails params args m e m'
  | parameter {before after : List Parameter} {p : Parameter} {values defaults : List Node}
      {m₁ m₂ m' : Memory} {e : EvalError} (hcount : args.length ≤ params.length)
      (hargs : Taken ev env scope params args values m m₁)
      (hparams : unfilled params args = before ++ p :: after)
      (hbefore : Supplied ev env scope before defaults m₁ m₂)
      (h : Lacks ev env scope call p m₂ e m') : Fails params args m e m'

end spec

end MixinCall

/-! ## The last argument for a slot

Arguments are taken from the left, and a later one replaces what an earlier one has put in its slot. So
each notion is followed from a list of arguments to the list with one more at its right end. -/

namespace Argument

variable {params : List Parameter}

/-- One more argument keeps the order unless it is positional and comes after a named one. -/
lemma orderly_append_singleton {args : List Argument} {arg : Argument} :
    Orderly (args ++ [arg]) ↔
      Orderly args ∧ ((args.any fun a => a.name?.isSome) = true → arg.name?.isSome = true) := by
  unfold Orderly
  rw [List.pairwise_append]
  simp only [List.pairwise_singleton, List.mem_singleton, forall_eq, true_and, List.any_eq_true]
  constructor
  · rintro ⟨h, hlast⟩
    refine ⟨h, ?_⟩
    rintro ⟨a, ha, hname⟩
    exact hlast a ha hname
  · rintro ⟨h, hlast⟩
    exact ⟨h, fun a ha hname => hlast ⟨a, ha, hname⟩⟩

/-- A list names known parameters only if both of its parts do. -/
lemma known_append {args others : List Argument} :
    Known params (args ++ others) ↔ Known params args ∧ Known params others :=
  List.forall_mem_append

/-- One more argument is the last one for its own slot, and changes nothing for the others. -/
lemma lastFor?_append_singleton (args : List Argument) (arg : Argument) (slot : Nat) :
    lastFor? params (args ++ [arg]) slot =
      if arg.slot? params args.length = some slot then some args.length
      else lastFor? params args slot := by
  unfold lastFor?
  rw [List.zipIdx_append, List.filter_append, List.zipIdx_singleton, Nat.zero_add]
  by_cases h : arg.slot? params args.length = some slot
  · rw [if_pos h, List.filter_cons_of_pos (by simpa using h), List.filter_nil,
      List.getLast?_append, List.getLast?_singleton]
    rfl
  · rw [if_neg h, List.filter_cons_of_neg (by simpa using h), List.filter_nil, List.append_nil]

/-- The last argument for a slot is one of the arguments. -/
lemma lt_of_lastFor? {args : List Argument} {slot place : Nat}
    (h : lastFor? params args slot = some place) : place < args.length := by
  obtain ⟨⟨arg, index⟩, hentry, rfl⟩ := Option.map_eq_some_iff.mp h
  have hmem := (List.mem_filter.mp (List.mem_of_getLast? hentry)).1
  exact (List.getElem?_eq_some_iff.mp (List.mem_zipIdx_iff_getElem?.mp hmem)).1

end Argument

namespace MixinCall

variable {ev : Evaluator} {env : Env} {scope : Scope} {call : MixinCall} {params : List Parameter}
  {args : List Argument} {values defaults : List Node} {m m' : Memory} {e : EvalError}

/-! ## The arguments

The first half of binding fills the slots. After a part of the arguments they hold what `filled` says of
that part, as long as all of them are as they should be (`Taken`). The first one that is not ends the
call. -/

/-- There is one slot for each parameter, whatever the arguments are. -/
lemma length_filled : (filled params args values).length = params.length := by
  simp [filled]

/-- Each argument gives one value. -/
lemma Taken.length_eq (h : Taken ev env scope params args values m m') :
    values.length = args.length := by
  simpa using (outcome_mapM_ok h.values).length_eq.symm

/-- One more argument replaces what was in its slot. -/
lemma filled_append_singleton {arg : Argument} {slot : Nat} {value : Node}
    (hslot : arg.slot? params args.length = some slot) (hlength : values.length = args.length) :
    filled params (args ++ [arg]) (values ++ [value]) =
      (filled params args values).set slot (some value) := by
  apply List.ext_getElem?
  intro k
  by_cases hk : k < params.length
  · by_cases hks : slot = k
    · subst hks
      rw [← hlength] at hslot
      simp [filled, Argument.lastFor?_append_singleton, hslot, hk, ← hlength]
    · rw [List.getElem?_set_ne hks]
      simp only [filled, List.getElem?_map, List.getElem?_range hk, Option.map_some, Option.some_inj,
        Argument.lastFor?_append_singleton, hslot, hks, if_false]
      apply Option.bind_congr
      intro place hplace
      rw [List.getElem?_append_left (hlength ▸ Argument.lt_of_lastFor? hplace)]
  · rw [List.getElem?_eq_none (by simpa [length_filled] using hk),
      List.getElem?_eq_none (by simpa [length_filled] using hk)]

/-- The name stands for the first of two parameters, which the positional argument is for as well. -/
example : filled [.required "@x", .required "@y", .required "@x"]
    [.positional (.text "a"), .named "@x" (.text "b")] [.text "a", .text "b"] =
      [some (.text "b"), none, none] := rfl

/-- What is before in the list of arguments is taken before. -/
lemma fillSlots_append (before after : List Argument) (position : Nat) (named : Bool)
    (slots : List (Option Node)) :
    fillSlots ev env scope call params position named (before ++ after) slots =
      fillSlots ev env scope call params position named before slots >>=
        fillSlots ev env scope call params (position + before.length)
          (named || before.any fun a => a.name?.isSome) after := by
  induction before generalizing position named slots with
  | nil => simp [fillSlots]
  | cons arg before ih =>
    simp only [List.cons_append, fillSlots, bind_assoc, ih, List.length_cons, List.any_cons,
      Bool.or_assoc, Nat.add_assoc, Nat.add_comm 1]

/-- A known argument that is not misplaced has a slot. -/
lemma slot_of_known (call : MixinCall) (position : Nat) {arg : Argument} {named : Bool}
    (hnamed : named = true → arg.name?.isSome = true) (hknown : Argument.Known params [arg]) :
    ∃ slot, arg.slot? params position = some slot ∧
      call.slot params position named arg = .ok slot := by
  cases arg with
  | positional value =>
    cases named with
    | false => exact ⟨position, rfl, rfl⟩
    | true => exact absurd (hnamed rfl) Bool.false_ne_true
  | named name value =>
    obtain ⟨p, hp, hname⟩ := hknown _ (List.mem_singleton_self _) name rfl
    have hsome : (params.findIdx? fun p => p.name == name).isSome = true := by
      rw [List.findIdx?_isSome, List.any_eq_true]
      exact ⟨p, hp, by simpa using hname⟩
    obtain ⟨slot, hslot⟩ := Option.isSome_iff_exists.mp hsome
    refine ⟨slot, hslot, ?_⟩
    simp only [MixinCall.slot, hslot]

/-- An argument that is not as it should be ends the filling of slots: it names no parameter, or it has no
name where one before it has, or its value stops. -/
lemma fillSlots_of_offends {before after : List Argument} {arg : Argument} {position : Nat}
    (slots : List (Option Node)) (h : Offends ev env scope call params before arg m e m') :
    outcome (fillSlots ev env scope call params position
      (before.any fun a => a.name?.isSome) (arg :: after) slots) m = (.error e, m') := by
  unfold fillSlots
  cases h with
  | @unknown name hname hparams =>
    have hslot : call.slot params position (before.any fun a => a.name?.isSome) arg =
        .error (.unknownParameter name call.toSource) := by
      cases arg with
      | positional value => cases hname
      | named other value =>
        cases hname
        have hnone : (params.findIdx? fun p => p.name == name) = none := by
          rw [List.findIdx?_eq_none_iff]
          exact fun p hp => by simpa using hparams p hp
        simp only [MixinCall.slot, hnone]
    rw [hslot]
    rfl
  | misplaced hname hbefore =>
    have hslot : call.slot params position (before.any fun a => a.name?.isSome) arg =
        .error (.positionalAfterNamed call.toSource) := by
      cases arg with
      | positional value => exact if_pos (List.any_eq_true.mpr hbefore)
      | named other value => cases hname
    rw [hslot]
    rfl
  | faulty horderly hknown hvalue =>
    obtain ⟨slot, -, hslot⟩ := slot_of_known call position
      (Argument.orderly_append_singleton.mp horderly).2 hknown
    rw [hslot, outcome_bind_of_ok (outcome_liftExcept (.ok slot) m)]
    exact outcome_bind_of_error hvalue

/-- A call without arguments takes none, and leaves the memory as it is. -/
lemma taken_nil : Taken ev env scope params [] [] m m :=
  ⟨List.Pairwise.nil, by simp [Argument.Known], rfl⟩

/-- One more argument is taken after the others. -/
lemma taken_append_singleton {arg : Argument} :
    Taken ev env scope params (args ++ [arg]) values m m' ↔
      ∃ init value m₁, values = init ++ [value] ∧ Taken ev env scope params args init m m₁ ∧
        Argument.Orderly (args ++ [arg]) ∧ Argument.Known params [arg] ∧
        outcome (ev.node env scope arg.value) m₁ = (.ok value, m') := by
  constructor
  · rintro ⟨horderly, hknown, hvalues⟩
    rw [List.map_append, List.mapM_append] at hvalues
    obtain ⟨init, m₁, hinit, h⟩ := outcome_bind_ok.mp hvalues
    obtain ⟨last, m₂, hlast, h⟩ := outcome_bind_ok.mp h
    cases h
    rw [List.map_singleton, List.mapM_cons] at hlast
    obtain ⟨value, m₃, hvalue, h⟩ := outcome_bind_ok.mp hlast
    cases h
    obtain ⟨hknown, hlastKnown⟩ := Argument.known_append.mp hknown
    exact ⟨init, value, m₁, rfl, ⟨(Argument.orderly_append_singleton.mp horderly).1, hknown, hinit⟩,
      horderly, hlastKnown, hvalue⟩
  · rintro ⟨init, value, m₁, rfl, hinit, horderly, hknown, hvalue⟩
    refine ⟨horderly, Argument.known_append.mpr ⟨hinit.known, hknown⟩, ?_⟩
    rw [List.map_append, List.mapM_append, outcome_bind_of_ok hinit.values, List.map_singleton,
      List.mapM_cons, bind_assoc, outcome_bind_of_ok hvalue]
    rfl

/-- Arguments that are taken fill the slots. -/
lemma Taken.fillSlots (call : MixinCall) (h : Taken ev env scope params args values m m') :
    outcome (call.fillSlots ev env scope params 0 false args (List.replicate params.length none)) m =
      (.ok (filled params args values), m') := by
  induction args using List.reverseRecOn generalizing values m' with
  | nil =>
    obtain ⟨-, -, hvalues⟩ := h
    cases hvalues
    simp [MixinCall.fillSlots, filled, Argument.lastFor?, List.map_const']
  | append_singleton args arg ih =>
    obtain ⟨init, value, m₁, rfl, hinit, horderly, hknown, hvalue⟩ := taken_append_singleton.mp h
    obtain ⟨slot, hslot?, hslot⟩ := slot_of_known call args.length
      (Argument.orderly_append_singleton.mp horderly).2 hknown
    rw [fillSlots_append, outcome_bind_of_ok (ih hinit), Nat.zero_add, Bool.false_or,
      MixinCall.fillSlots, hslot, outcome_bind_of_ok (outcome_liftExcept (.ok slot) m₁),
      outcome_bind_of_ok hvalue, filled_append_singleton hslot? hinit.length_eq]
    rfl

/-- Either all arguments are taken or there is a first one that offends. By induction from the left, since
each is evaluated in the memory that those before it have left. -/
lemma taken_or_offends (call : MixinCall) (params : List Parameter) (args : List Argument)
    (m : Memory) :
    (∃ values m', Taken ev env scope params args values m m') ∨
      ∃ before arg after values m₁ e m', args = before ++ arg :: after ∧
        Taken ev env scope params before values m m₁ ∧
        Offends ev env scope call params before arg m₁ e m' := by
  induction args using List.reverseRecOn with
  | nil => exact .inl ⟨[], m, taken_nil⟩
  | append_singleton args arg ih =>
    obtain ⟨values, m₁, htaken⟩ | ⟨before, first, after, values, m₁, e, m', rfl, htaken, hfirst⟩ := ih
    · -- the arguments before are taken: whether the last one is, is up to that one
      by_cases horderly : Argument.Orderly (args ++ [arg])
      · by_cases hknown : Argument.Known params [arg]
        · rcases hvalue : outcome (ev.node env scope arg.value) m₁ with ⟨e | value, m'⟩
          · exact .inr ⟨args, arg, [], values, m₁, e, m', rfl, htaken, .faulty horderly hknown hvalue⟩
          · exact .inl ⟨values ++ [value], m', taken_append_singleton.mpr
              ⟨values, value, m₁, rfl, htaken, horderly, hknown, hvalue⟩⟩
        · simp only [Argument.Known, List.mem_singleton, forall_eq] at hknown
          push Not at hknown
          obtain ⟨name, hname, hparams⟩ := hknown
          exact .inr ⟨args, arg, [], values, m₁, _, m₁, rfl, htaken, .unknown hname hparams⟩
      · rw [Argument.orderly_append_singleton] at horderly
        push Not at horderly
        obtain ⟨hbefore, hname⟩ := horderly htaken.orderly
        have hnone : arg.name? = none := by simpa using hname
        exact .inr ⟨args, arg, [], values, m₁, _, m₁, rfl, htaken,
          .misplaced hnone (List.any_eq_true.mp hbefore)⟩
    · exact .inr ⟨before, first, after ++ [arg], values, m₁, e, m', by simp, htaken, hfirst⟩

/-! ## The parameters

The second half declares each parameter with what is in its slot, or else with the value of its default.
Parameters with filled slots evaluate nothing, so the memory is handed from hole to hole, and the holes
are supplied one after the other as the arguments were taken. -/

/-- The declaration for a parameter with what is in its slot. -/
def declare (ev : Evaluator) (env : Env) (scope : Scope) (call : MixinCall)
    (entry : Parameter × Option Node) : EvalM Node := do
  let value ← parameterValue ev env scope call entry.1 entry.2
  return .declaration (.plain entry.1.name value)

/-- The parameters with nothing in their slots. -/
def holes (entries : List (Parameter × Option Node)) : List Parameter :=
  (entries.filter fun entry => entry.2.isNone).map Prod.fst

/-- With no more arguments than parameters, binding fills the slots and then declares the parameters. -/
lemma bind_of_count (ev : Evaluator) (env : Env) (scope : Scope) (call : MixinCall)
    (h : args.length ≤ params.length) :
    bind ev env scope call params args =
      fillSlots ev env scope call params 0 false args (List.replicate params.length none) >>=
        fun slots => List.mapM (declare ev env scope call) (params.zip slots) := by
  unfold bind
  rw [if_neg (Nat.not_lt.mpr h)]
  rfl

/-- What no argument is for has nothing in its slot. -/
lemma holes_filled (hlength : values.length = args.length) :
    holes (params.zip (filled params args values)) = unfilled params args := by
  have hzip : params.zip (filled params args values) = params.zipIdx.map fun entry =>
      (entry.1, (Argument.lastFor? params args entry.2).bind fun place => values[place]?) := by
    rw [List.zipIdx_eq_zip_range', ← List.range_eq_range', filled, List.zip_map_right]
    rfl
  have hnone (slot : Nat) :
      ((Argument.lastFor? params args slot).bind fun place => values[place]?).isNone =
        (Argument.lastFor? params args slot).isNone := by
    rcases hlast : Argument.lastFor? params args slot with _ | place
    · rfl
    · have hplace : place < values.length := hlength ▸ Argument.lt_of_lastFor? hlast
      simp [hplace]
  unfold holes unfilled
  rw [hzip, List.filter_map, List.map_map]
  simp only [Function.comp_def, hnone]

/-- The parameter in front is supplied first. -/
lemma supplied_cons {p : Parameter} {rest : List Parameter} :
    Supplied ev env scope (p :: rest) defaults m m' ↔
      ∃ d value tail m₁, p.default? = some d ∧ outcome (ev.node env scope d) m = (.ok value, m₁) ∧
        defaults = value :: tail ∧ Supplied ev env scope rest tail m₁ m' := by
  constructor
  · rintro ⟨hdefault, hvalues⟩
    obtain ⟨d, hd⟩ := Option.isSome_iff_exists.mp (hdefault p List.mem_cons_self)
    rw [List.filterMap_cons_some hd, List.mapM_cons] at hvalues
    obtain ⟨value, m₁, hvalue, h⟩ := outcome_bind_ok.mp hvalues
    obtain ⟨tail, m₂, htail, h⟩ := outcome_bind_ok.mp h
    cases h
    exact ⟨d, value, tail, m₁, hd, hvalue, rfl,
      fun q hq => hdefault q (List.mem_cons_of_mem p hq), htail⟩
  · rintro ⟨d, value, tail, m₁, hd, hvalue, rfl, hrest⟩
    refine ⟨List.forall_mem_cons.mpr ⟨by simp [hd], hrest.default⟩, ?_⟩
    rw [List.filterMap_cons_some hd, List.mapM_cons, outcome_bind_of_ok hvalue,
      outcome_bind_of_ok hrest.values]
    rfl

/-- A parameter with an empty slot is a hole. -/
lemma holes_cons_none (p : Parameter) (entries : List (Parameter × Option Node)) :
    holes ((p, none) :: entries) = p :: holes entries :=
  rfl

/-- What is in the slot is the value. -/
lemma outcome_declare_some (p : Parameter) (value : Node) :
    outcome (declare ev env scope call (p, some value)) m =
      (.ok (.declaration (.plain p.name value)), m) :=
  rfl

/-- Nothing is in the slot, and the default evaluates. -/
lemma outcome_declare_default {p : Parameter} {d value : Node} (hd : p.default? = some d)
    (hvalue : outcome (ev.node env scope d) m = (.ok value, m')) :
    outcome (declare ev env scope call (p, none)) m =
      (.ok (.declaration (.plain p.name value)), m') := by
  unfold declare
  simp only [parameterValue, hd]
  rw [outcome_bind_of_ok hvalue]
  rfl

/-- Nothing is in the slot, and the parameter lacks a value. -/
lemma Lacks.outcome_declare {p : Parameter} (h : Lacks ev env scope call p m e m') :
    outcome (declare ev env scope call (p, none)) m = (.error e, m') := by
  unfold declare
  apply outcome_bind_of_error
  cases h with
  | missing hdefault => simp only [parameterValue, hdefault, outcome_throw]
  | faulty hdefault hvalue => simpa only [parameterValue, hdefault] using hvalue

/-- With defaults for what is missing, every parameter is declared. -/
lemma Supplied.outcome_declare (call : MixinCall) {entries : List (Parameter × Option Node)}
    (h : Supplied ev env scope (holes entries) defaults m m') :
    outcome (entries.mapM (declare ev env scope call)) m =
      (.ok (List.zipWith (fun p value => .declaration (.plain p.name value)) (entries.map Prod.fst)
        (complete (entries.map Prod.snd) defaults)), m') := by
  induction entries generalizing m defaults with
  | nil =>
    obtain ⟨-, hvalues⟩ := h
    cases hvalues
    rfl
  | cons entry entries ih =>
    obtain ⟨p, slot⟩ := entry
    rw [List.mapM_cons]
    cases slot with
    | some value =>
      rw [outcome_bind_of_ok (outcome_declare_some p value), outcome_bind_of_ok (ih h)]
      rfl
    | none =>
      rw [holes_cons_none] at h
      obtain ⟨d, value, tail, m₁, hd, hvalue, rfl, hrest⟩ := supplied_cons.mp h
      rw [outcome_bind_of_ok (outcome_declare_default hd hvalue), outcome_bind_of_ok (ih hrest)]
      rfl

/-- The first parameter that lacks a value ends the declarations: it has no argument and no default, or
its default stops. -/
lemma outcome_declare_of_lacks {entries : List (Parameter × Option Node)}
    {before after : List Parameter} {p : Parameter} {m₁ : Memory}
    (hholes : holes entries = before ++ p :: after)
    (hbefore : Supplied ev env scope before defaults m m₁)
    (h : Lacks ev env scope call p m₁ e m') :
    outcome (entries.mapM (declare ev env scope call)) m = (.error e, m') := by
  induction entries generalizing m before defaults with
  | nil => cases before <;> cases hholes
  | cons entry entries ih =>
    obtain ⟨q, slot⟩ := entry
    rw [List.mapM_cons]
    cases slot with
    | some value =>
      rw [outcome_bind_of_ok (outcome_declare_some q value)]
      exact outcome_bind_of_error (ih hholes hbefore)
    | none =>
      rw [holes_cons_none] at hholes
      cases before with
      | nil =>
        obtain ⟨rfl, -⟩ := List.cons_eq_cons.mp hholes
        obtain ⟨-, hvalues⟩ := hbefore
        cases hvalues
        exact outcome_bind_of_error h.outcome_declare
      | cons first before =>
        obtain ⟨rfl, hentries⟩ := List.cons_eq_cons.mp hholes
        obtain ⟨d, value, tail, m₂, hd, hvalue, -, hrest⟩ := supplied_cons.mp hbefore
        rw [outcome_bind_of_ok (outcome_declare_default hd hvalue)]
        exact outcome_bind_of_error (ih hentries hrest)

/-- Either all parameters are supplied or there is a first one that lacks a value. -/
lemma supplied_or_lacks (call : MixinCall) (params : List Parameter) (m : Memory) :
    (∃ defaults m', Supplied ev env scope params defaults m m') ∨
      ∃ before p after defaults m₁ e m', params = before ++ p :: after ∧
        Supplied ev env scope before defaults m m₁ ∧ Lacks ev env scope call p m₁ e m' := by
  have hnil : Supplied ev env scope [] [] m m := ⟨by simp, rfl⟩
  induction params generalizing m with
  | nil => exact .inl ⟨[], m, hnil⟩
  | cons p params ih =>
    rcases hd : p.default? with _ | d
    · exact .inr ⟨[], p, params, [], m, _, m, rfl, hnil, .missing hd⟩
    rcases hvalue : outcome (ev.node env scope d) m with ⟨e | value, m₁⟩
    · exact .inr ⟨[], p, params, [], m, e, m₁, rfl, hnil, .faulty hd hvalue⟩
    -- the first parameter is supplied, and the rest goes on from the memory that it has left
    obtain ⟨defaults, m', h⟩ | ⟨before, q, after, defaults, m₂, e, m', rfl, hbefore, h⟩ :=
      ih m₁ ⟨by simp, rfl⟩
    · exact .inl ⟨value :: defaults, m', supplied_cons.mpr ⟨d, value, defaults, m₁, hd, hvalue, rfl, h⟩⟩
    · exact .inr ⟨p :: before, q, after, value :: defaults, m₂, e, m', rfl,
        supplied_cons.mpr ⟨d, value, defaults, m₁, hd, hvalue, rfl, hbefore⟩, h⟩

/-! ## The whole of it

Both halves end in one of two ways, and so does binding: one of `Binds` and `Fails` holds in any case
(`binds_or_fails`). Since each of them determines the outcome, the outcome in turn tells which of them
holds. -/

/-- Slots that are filled are declared as they are said to be. -/
lemma Binds.outcome_bind {bound : List Node} (call : MixinCall)
    (h : Binds ev env scope params args bound m m') :
    outcome (bind ev env scope call params args) m = (.ok bound, m') := by
  obtain ⟨hcount, htaken, hsupplied⟩ := h
  rw [← holes_filled htaken.length_eq] at hsupplied
  have hdeclared := hsupplied.outcome_declare call
  rw [List.map_fst_zip (Nat.le_of_eq length_filled.symm),
    List.map_snd_zip (Nat.le_of_eq length_filled)] at hdeclared
  rw [bind_of_count ev env scope call hcount, outcome_bind_of_ok (htaken.fillSlots call)]
  exact hdeclared

/-- Binding declares each parameter once. -/
lemma Binds.length_eq {bound : List Node} (h : Binds ev env scope params args bound m m')
    (call : MixinCall) : bound.length = params.length := by
  have hbind := h.outcome_bind call
  obtain ⟨hcount, htaken, -⟩ := h
  rw [bind_of_count ev env scope call hcount, outcome_bind_of_ok (htaken.fillSlots call)] at hbind
  simpa [length_filled] using (outcome_mapM_ok hbind).length_eq.symm

/-- Binding ends for the first cause there is. -/
lemma Fails.outcome_bind (h : Fails ev env scope call params args m e m') :
    outcome (bind ev env scope call params args) m = (.error e, m') := by
  cases h with
  | count h =>
    unfold bind
    rw [if_pos h]
    rfl
  | argument hcount hargs hbefore h =>
    rw [bind_of_count ev env scope call hcount, hargs]
    apply outcome_bind_of_error
    rw [fillSlots_append, outcome_bind_of_ok (hbefore.fillSlots call), Bool.false_or]
    exact fillSlots_of_offends _ h
  | parameter hcount hargs hparams hbefore h =>
    rw [bind_of_count ev env scope call hcount, outcome_bind_of_ok (hargs.fillSlots call)]
    rw [← holes_filled hargs.length_eq] at hparams
    exact outcome_declare_of_lacks hparams hbefore h

/-- Binding succeeds or fails. -/
lemma binds_or_fails (ev : Evaluator) (env : Env) (scope : Scope) (call : MixinCall)
    (params : List Parameter) (args : List Argument) (m : Memory) :
    (∃ bound m', Binds ev env scope params args bound m m') ∨
      ∃ e m', Fails ev env scope call params args m e m' := by
  by_cases hcount : args.length ≤ params.length
  · obtain ⟨values, m₁, htaken⟩ | ⟨before, arg, after, values, m₁, e, m', hargs, hbefore, h⟩ :=
      taken_or_offends call params args m
    · obtain ⟨defaults, m', h⟩ | ⟨before, p, after, defaults, m₂, e, m', hparams, hbefore, h⟩ :=
        supplied_or_lacks call (unfilled params args) m₁
      · exact .inl ⟨_, m', .intro hcount htaken h⟩
      · exact .inr ⟨e, m', .parameter hcount htaken hparams hbefore h⟩
    · exact .inr ⟨e, m', .argument hcount hargs hbefore h⟩
  · exact .inr ⟨_, m, .count (Nat.not_le.mp hcount)⟩

/-- **How binding ends.** It gives declarations exactly when it binds in the sense of `Binds`, namely one
for each parameter, and it ends for a cause exactly when it fails for that cause in the sense of
`Fails`. -/
theorem outcome_bind_iff (ev : Evaluator) (env : Env) (scope : Scope) (call : MixinCall)
    (params : List Parameter) (args : List Argument) (m m' : Memory) :
    (∀ bound, outcome (bind ev env scope call params args) m = (.ok bound, m') ↔
        bound.length = params.length ∧ Binds ev env scope params args bound m m') ∧
      ∀ e, outcome (bind ev env scope call params args) m = (.error e, m') ↔
        Fails ev env scope call params args m e m' := by
  -- one of the two always holds, and each determines the outcome
  obtain ⟨bound, m₁, hbinds⟩ | ⟨e, m₁, hfails⟩ := binds_or_fails ev env scope call params args m
  · rw [hbinds.outcome_bind call]
    constructor
    · intro other
      constructor
      · intro h
        cases h
        exact ⟨hbinds.length_eq call, hbinds⟩
      · rintro ⟨-, h⟩
        rw [← hbinds.outcome_bind call, h.outcome_bind call]
    · intro e
      constructor
      · intro h
        cases h
      · intro h
        rw [← hbinds.outcome_bind call, h.outcome_bind]
  · rw [hfails.outcome_bind]
    constructor
    · intro other
      constructor
      · intro h
        cases h
      · rintro ⟨-, h⟩
        rw [← hfails.outcome_bind, h.outcome_bind call]
    · intro other
      constructor
      · intro h
        cases h
        exact hfails
      · intro h
        rw [← hfails.outcome_bind, h.outcome_bind]

end MixinCall

end Stylesheet
