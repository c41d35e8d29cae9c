import Stylesheet.Builtin.Basic
import Stylesheet.Evaluation.Binding
import Stylesheet.Evaluation.Value
import Stylesheet.Node.Printer
import Stylesheet.Proofs.Finished
import Stylesheet.Proofs.Grammar

/-!
# Faults of the style sheet

The parts of evaluation that do not evaluate anything themselves: operators, built-in functions, the
choice of a parameter for an argument, and printing.

* `Proper P x`: `x` is a value that satisfies `P`, or a fault of the style sheet. Operators
  (`Node.operate_proper`) and built-in functions (`Builtin.apply_proper`) are proper, and what they
  give is a text, number or colour, or an item of an argument.
* Printing is different: it has no faults at all. What is evaluated and holds neither blocks nor mixin
  calls can be printed (`Node.Finished.exists_toCss`), anything else is a breach of the evaluator's
  rules.
-/

namespace Stylesheet

variable {α β : Type}

/-- A value that satisfies `P`, or a fault of the style sheet. -/
inductive Proper (P : α → Prop) : Except EvalError α → Prop
  | ok {a : α} (h : P a) : Proper P (.ok a)
  | error {e : EvalError} (h : e.isUserError = true) : Proper P (.error e)

namespace Proper

variable {P : α → Prop} {Q : β → Prop} {x : Except EvalError α} {k : α → Except EvalError β}

/-- A fault can only come from one of the two steps. -/
lemma bind (hx : Proper P x) (hk : ∀ a, P a → Proper Q (k a)) : Proper Q (x >>= k) := by
  cases hx with
  | ok h => exact hk _ h
  | error h => exact .error h

/-- Less may be known of the value. -/
lemma mono {R : α → Prop} (hx : Proper P x) (h : ∀ a, P a → R a) : Proper R x := by
  cases hx with
  | ok ha => exact .ok (h _ ha)
  | error he => exact .error he

/-- A list is gone through until there is a fault. -/
lemma mapM {f : α → Except EvalError β} {l : List α} (h : ∀ a ∈ l, Proper Q (f a)) :
    Proper (fun bs => ∀ b ∈ bs, Q b) (l.mapM f) := by
  induction l with
  | nil =>
    rw [List.mapM_nil]
    exact .ok (by simp)
  | cons a l ih =>
    rw [List.mapM_cons]
    refine (h a List.mem_cons_self).bind fun b hb => ?_
    refine (ih fun c hc => h c (List.mem_cons_of_mem a hc)).bind fun bs hbs => .ok ?_
    intro c hc
    rcases List.mem_cons.mp hc with rfl | hc
    · exact hb
    · exact hbs c hc

end Proper

/-- The kinds of nodes that computing gives. -/
inductive Node.Scalar : Node → Prop
  | text (value : String) : Node.Scalar (.text value)
  | number (q : Quantity) : Node.Scalar (.number q)
  | color (c : Color) : Node.Scalar (.color c)

/-- A scalar is finished. -/
lemma Node.Scalar.finished {n : Node} (h : n.Scalar) : n.Finished := by
  cases h <;> exact .of_isLiteral rfl

/-- A scalar keeps to every grammar, wherever it stands. -/
lemma Node.Scalar.conforms {n : Node} (h : n.Scalar) (g : Grammar) (p : Place) :
    n.Conforms g p := by
  cases h with
  | text value => exact .text value
  | number q => exact .number q
  | color c => exact .color c

/-! ## Operators -/

/-- An operator computes, or it divides by zero. -/
lemma Operator.apply_proper (op : Operator) (left right : Float) :
    Proper (fun _ => True) (op.apply left right) := by
  cases h : op.apply left right with
  | ok x => exact .ok trivial
  | error e =>
    rw [Operator.apply_eq_error h]
    exact .error rfl

/-- Quantities are computed, or they are divided by zero. -/
lemma Quantity.operate_proper (op : Operator) (p q : Quantity) :
    Proper (fun _ => True) (Quantity.operate op p q) :=
  (op.apply_proper p.value q.value).bind fun _ _ => .ok trivial

/-- Colours are computed, or some channel is divided by zero. -/
lemma Color.operate_proper (op : Operator) (a b : Color) :
    Proper (fun _ => True) (Color.operate op a b) :=
  (op.apply_proper a.red b.red).bind fun _ _ =>
    (op.apply_proper a.green b.green).bind fun _ _ =>
      (op.apply_proper a.blue b.blue).bind fun _ _ => .ok trivial

/-- An operator gives a number or a colour, or the operands are at fault. -/
lemma Node.operate_proper (op : Operator) (left right : Node) :
    Proper Node.Scalar (Node.operate op left right) := by
  unfold Node.operate
  split
  · exact (Quantity.operate_proper op _ _).bind fun q _ => .ok (.number q)
  · exact (Color.operate_proper op _ _).bind fun c _ => .ok (.color c)
  · exact (Color.operate_proper op _ _).bind fun c _ => .ok (.color c)
  · exact (Color.operate_proper op _ _).bind fun c _ => .ok (.color c)
  · exact .error rfl

/-! ## Built-in functions

Functions look at their arguments through a few readers, and these complain about what they do not find.
What is computed then is a scalar. Only `extract` hands on a part of an argument as it is. -/

namespace Arguments

variable (args : Arguments)

/-- A wrong number of arguments is a fault of the style sheet. -/
lemma expectCount_proper (count : Nat) : Proper (fun _ => True) (args.expectCount count) := by
  unfold expectCount
  split
  · exact .ok trivial
  · exact .error rfl

/-- An argument that is no number where one is asked for is a fault of the style sheet. -/
lemma number_proper (index : Nat) : Proper (fun _ => True) (args.number index) := by
  unfold number
  split
  · exact .ok trivial
  · exact .error rfl

/-- An argument that is no colour where one is asked for is a fault of the style sheet. -/
lemma color_proper (index : Nat) : Proper (fun _ => True) (args.color index) := by
  unfold color
  split
  · exact .ok trivial
  · exact .error rfl

/-- A function of one number gives a number. -/
lemma mapNumber_proper (f : Float → Float) : Proper Node.Scalar (args.mapNumber f) :=
  (args.expectCount_proper 1).bind fun _ _ =>
    (args.number_proper 0).bind fun _ _ => .ok (.number _)

/-- A percentage is a number. -/
lemma percentage_proper : Proper Node.Scalar args.percentage :=
  (args.expectCount_proper 1).bind fun _ _ =>
    (args.number_proper 0).bind fun _ _ => .ok (.number _)

/-- A colour from four numbers is a colour. -/
lemma colorOfFour_proper (build : Quantity → Quantity → Quantity → Quantity → Color) :
    Proper Node.Scalar (args.colorOfFour build) := by
  refine (args.expectCount_proper 4).bind fun _ _ => ?_
  refine (Proper.mapM fun index _ => args.number_proper index).bind fun qs _ => ?_
  split
  · exact .ok (.color _)
  · exact .error rfl

/-- A component is read as a number, or changed to give a colour. -/
lemma component_proper (read : Color → Quantity) (change : Color → Quantity → Color) :
    Proper Node.Scalar (args.component read change) := by
  unfold component
  split
  · exact (args.color_proper 0).bind fun _ _ => .ok (.number _)
  · exact (args.color_proper 0).bind fun _ _ =>
      (args.number_proper 1).bind fun _ _ => .ok (.color _)
  · exact .error rfl

/-- A colour of another lightness is a colour. -/
lemma shiftLightness_proper (direction : Float) :
    Proper Node.Scalar (args.shiftLightness direction) :=
  (args.expectCount_proper 2).bind fun _ _ =>
    (args.color_proper 0).bind fun _ _ =>
      (args.number_proper 1).bind fun _ _ => .ok (.color _)

/-- An unquoted text is a text. -/
lemma unquote_proper : Proper Node.Scalar args.unquote := by
  refine (args.expectCount_proper 1).bind fun _ _ => ?_
  split
  · exact .ok (.text _)
  · exact .ok (.text _)
  · exact .error rfl

/-- The length of a list is a number. -/
lemma length_proper : Proper Node.Scalar args.length :=
  (args.expectCount_proper 1).bind fun _ _ => .ok (.number _)

/-- An item of a list is one of its items. -/
lemma mem_of_itemAt? {items : List Node} {index : Float} {item : Node}
    (h : itemAt? items index = some item) : item ∈ items := by
  obtain ⟨n, -, hn⟩ := Option.bind_eq_some_iff.mp h
  split at hn
  · cases hn
  · exact List.mem_of_getElem? hn

/-- An extracted item is an item of some argument. -/
lemma extract_proper : Proper (fun v => ∃ a ∈ args.nodes, v ∈ a.items) args.extract := by
  refine (args.expectCount_proper 2).bind fun _ _ => ?_
  refine (args.number_proper 1).bind fun q _ => ?_
  dsimp only
  split
  · next item hitem =>
    refine .ok ?_
    have hmem := mem_of_itemAt? hitem
    rw [firstItems] at hmem
    cases hnodes : args.nodes with
    | nil =>
      rw [hnodes] at hmem
      cases hmem
    | cons a rest =>
      rw [hnodes] at hmem
      exact ⟨a, List.mem_cons_self, hmem⟩
  · exact .error rfl

end Arguments

/-- A built-in function that does not pick an item computes a text, number or colour; otherwise its
arguments are at fault. -/
lemma Builtin.apply_scalar {builtin : Builtin} (h : builtin ≠ .extract) (args : Arguments) :
    Proper Node.Scalar (builtin.apply args) := by
  cases builtin with
  | extract => exact absurd rfl h
  | abs | ceil | floor | round => exact args.mapNumber_proper _
  | percentage => exact args.percentage_proper
  | rgba | hsla => exact args.colorOfFour_proper _
  | rgb | hsl =>
    exact (args.expectCount_proper 3).bind fun _ _ => Arguments.colorOfFour_proper _ _
  | alpha | hue | saturation | lightness | red | green | blue => exact args.component_proper _ _
  | lighten | darken => exact args.shiftLightness_proper _
  | e => exact args.unquote_proper
  | length => exact args.length_proper

/-- A built-in function computes a text, number or colour, or gives an item of one of its arguments;
otherwise its arguments are at fault. -/
lemma Builtin.apply_proper (f : Builtin) (args : Arguments) :
    Proper (fun v => v.Scalar ∨ ∃ a ∈ args.nodes, v ∈ a.items) (f.apply args) := by
  by_cases hextract : f = .extract
  · subst hextract
    exact args.extract_proper.mono fun _ h => .inr h
  · exact (Builtin.apply_scalar hextract args).mono fun _ h => .inl h

/-! ## Arguments of mixin calls -/

/-- An argument has a slot, or it is at fault: it names no parameter, or it comes after a named one. -/
lemma MixinCall.slot_proper (call : MixinCall) (params : List Parameter) (position : Nat)
    (named : Bool) (arg : Argument) :
    Proper (fun _ => True) (call.slot params position named arg) := by
  cases arg with
  | named name value =>
    simp only [MixinCall.slot]
    split
    · exact .ok trivial
    · exact .error rfl
  | positional value =>
    simp only [MixinCall.slot]
    split
    · exact .error rfl
    · exact .ok trivial

/-! ## Printing

Printing goes through a node and evaluates nothing, so it needs no fuel. It does not stop on a finished
node without blocks, and evaluation finishes every node. -/

/-- If each of some nodes can be printed, all of them can. -/
lemma Node.exists_toCssAll {l : List Node} (h : ∀ n ∈ l, ∃ text, n.toCss = .ok text) :
    ∃ texts, Node.toCssAll l = .ok texts := by
  induction l with
  | nil => exact ⟨[], rfl⟩
  | cons n l ih =>
    obtain ⟨text, htext⟩ := h n List.mem_cons_self
    obtain ⟨texts, htexts⟩ := ih fun k hk => h k (List.mem_cons_of_mem n hk)
    refine ⟨text :: texts, ?_⟩
    rw [Node.toCssAll, htext, htexts]
    rfl

/-- A sequence does not stop for a cause for which neither of its parts stops. -/
lemma bind_ne_error {x : Except EvalError α} {k : α → Except EvalError β} {e : EvalError}
    (hx : x ≠ .error e) (hk : ∀ a, k a ≠ .error e) : (x >>= k) ≠ .error e := by
  cases x with
  | error e' =>
    intro h
    cases h
    exact hx rfl
  | ok a => exact hk a

/-- Printing several nodes does not run out of fuel if printing each of them does not. -/
lemma Node.toCssAll_ne_outOfFuel {l : List Node} (h : ∀ n ∈ l, n.toCss ≠ .error .outOfFuel) :
    Node.toCssAll l ≠ .error .outOfFuel := by
  induction l with
  | nil => exact nofun
  | cons n l ih =>
    rw [Node.toCssAll]
    refine bind_ne_error (h n List.mem_cons_self) fun text => ?_
    exact bind_ne_error (ih fun k hk => h k (List.mem_cons_of_mem n hk)) fun texts => nofun

/-- Printing has its own causes to stop, and it needs no fuel. -/
lemma Node.toCss_ne_outOfFuel (n : Node) : n.toCss ≠ .error .outOfFuel := by
  induction n using Node.induction with
  | step n hvalues _ =>
    cases n with
    | expression items | list items =>
      rw [Node.toCss]
      exact bind_ne_error (Node.toCssAll_ne_outOfFuel hvalues) fun texts => nofun
    | declaration d =>
      obtain ⟨name, value, important⟩ := d
      rw [Node.toCss]
      exact bind_ne_error (hvalues value List.mem_cons_self) fun text => nofun
    | _ => exact nofun

/-- What is legible can be printed. -/
theorem Node.Legible.exists_toCss {n : Node} (hn : n.Legible) : ∃ text, n.toCss = .ok text := by
  induction hn with
  | @intro n notPending notBlock _ ih =>
    cases n with
    | text | quoted | number | color | comment | atImport => exact ⟨_, rfl⟩
    | expression items | list items =>
      obtain ⟨texts, htexts⟩ : ∃ texts, Node.toCssAll items = .ok texts := Node.exists_toCssAll ih
      exact ⟨_, by rw [Node.toCss, htexts]; rfl⟩
    | declaration d =>
      obtain ⟨name, value, important⟩ := d
      obtain ⟨text, htext⟩ := ih value List.mem_cons_self
      exact ⟨_, by rw [Node.toCss, htext]; rfl⟩
    | block b => cases notBlock
    | var | operation | call | accessor | mixin => cases notPending

/-- In a strict grammar, a finished node that is no block has no block in it. -/
lemma Node.Finished.legible {g : Grammar} (hg : g.Strict) {n : Node} (hn : n.Finished) {p : Place}
    (hc : n.Conforms g p) (hblock : n.shape.isBlock = false) : n.Legible := by
  induction hn generalizing p with
  | @intro n notPending _ _ ih _ =>
    refine .intro notPending hblock fun k hk => ?_
    exact ih k hk (hc.of_mem_values hk) ((hc.of_mem_values hk).isBlock_eq_false hg)

/-- A finished node without blocks and mixin calls can be printed. -/
theorem Node.Finished.exists_toCss {g : Grammar} (hg : g.Strict) {n : Node} (hn : n.Finished)
    {p : Place} (hc : n.Conforms g p) (hblock : n.shape.isBlock = false) :
    ∃ text, n.toCss = .ok text :=
  (hn.legible hg hc hblock).exists_toCss

end Stylesheet
