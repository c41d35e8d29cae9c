import Stylesheet.Proofs.Anatomy
import Stylesheet.Proofs.ExactValues
import Stylesheet.Proofs.Fuel

/-!
# Calculations

A calculation is a tree of operations with numbers and colours at its ends, its *operands*. Each operation
looks at two values only: whether one of them is a colour, which unit comes first, which opacity the left
one has. This file says what that amounts to for the whole tree.

* A calculation takes nothing from its surroundings: in every environment and scope it evaluates to what
  `Node.calculate` says of it alone (`Node.evaluate_yields_calculate`).
* `Node.Computed`: what the operands of a calculation say about its value. One operation carries it from its
  parts to the whole (`Node.Computed.operate`), and so the whole tree has it (`Node.calculate_comesTo`).
* **What a calculation comes to** (`Node.operation_comesTo`): a colour if there is one among the operands,
  with the opacity of the operand on the far left; else a number, with the first unit from the left. The
  only fault is a division by zero, and only a calculation that divides has it.
-/

namespace Stylesheet

variable {α β : Type}

/-- A value that satisfies `P`; or else a division by zero, for which `Z` is needed. -/
inductive ComesTo (P : α → Prop) (Z : Prop) : Except EvalError α → Prop
  | ok {a : α} (h : P a) : ComesTo P Z (.ok a)
  | byZero (h : Z) : ComesTo P Z (.error .divisionByZero)

namespace ComesTo

variable {P Q : α → Prop} {R : β → Prop} {Y Z : Prop} {x : Except EvalError α}
  {k : α → Except EvalError β}

/-- One step after another: where the first one stops, so does the whole. -/
lemma bind (hx : ComesTo P Z x) (hk : ∀ a, P a → ComesTo R Z (k a)) : ComesTo R Z (x >>= k) := by
  cases hx with
  | ok h => exact hk _ h
  | byZero h => exact .byZero h

/-- A calculation may be known to come to less. -/
lemma mono (hx : ComesTo P Y x) (hP : ∀ a, P a → Q a) (hY : Y → Z) : ComesTo Q Z x := by
  cases hx with
  | ok h => exact .ok (hP _ h)
  | byZero h => exact .byZero (hY h)

end ComesTo

/-! ## One operation

Quantities and colours are computed with number by number, a colour in its three channels. The one fault
that an operator has on numbers is passed on. -/

/-- An operator gives a number, unless it divides by zero. -/
lemma Operator.apply_comesTo (op : Operator) (x y : Float) :
    ComesTo (fun _ => True) (op = .divide) (op.apply x y) := by
  cases op with
  | divide =>
    show ComesTo _ _ (if y == 0 then _ else _)
    split
    · exact .byZero rfl
    · exact .ok trivial
  | _ => exact .ok trivial

/-- An operator on quantities computes the value as on numbers, and joins the units. -/
lemma Quantity.operate_comesTo (op : Operator) (p q : Quantity) :
    ComesTo (fun r => r.unit = joinUnits p.unit q.unit) (op = .divide) (Quantity.operate op p q) :=
  (op.apply_comesTo p.value q.value).bind fun _ _ => .ok rfl

/-- A colour is computed anew, with the opacity of the left operand. -/
lemma Color.operate_comesTo (op : Operator) (a b : Color) :
    ComesTo (fun c => ∃ red green blue, c = ofChannels red green blue a.alpha) (op = .divide)
      (Color.operate op a b) :=
  (op.apply_comesTo a.red b.red).bind fun red _ =>
    (op.apply_comesTo a.green b.green).bind fun green _ =>
      (op.apply_comesTo a.blue b.blue).bind fun blue _ => .ok ⟨red, green, blue, rfl⟩

/-! ## The operands of a calculation

An operation sees two values, and not the operands behind them. `Computed` is what has to be remembered
about these operands for the next operation: it is known of the operands on the left and of those on the
right, and it has to come out for all of them together. -/

namespace Node

/-- What stands at the ends of nested operations, from left to right. -/
def operands : Node → List Node
  | .operation _ left right => left.operands ++ right.operands
  | n => [n]

/-- The operators of nested operations, from left to right. -/
def operators : Node → List Operator
  | .operation op left right => left.operators ++ op :: right.operators
  | _ => []

/-- What can be computed with. -/
inductive Operand : Node → Prop
  | number (q : Quantity) : Operand (.number q)
  | color (c : Color) : Operand (.color c)

/-- The unit of a number. -/
def unit : Node → String
  | .number q => q.unit
  | _ => ""

/-- The first unit from the left, or none. -/
def firstUnit (operands : List Node) : String :=
  ((operands.map unit).find? fun u => u ≠ "").getD ""

/-- The opacity of the operand on the far left. A number is opaque. -/
def leadingAlpha : List Node → Float
  | .color c :: _ => clamp 0 1 c.alpha
  | _ => 1

/-- The value of a calculation. -/
def calculate : Node → Except EvalError Node
  | .operation op left right => do
    let left ← left.calculate
    let right ← right.calculate
    Node.operate op left right
  | n => .ok n

/-- What the operands of a calculation say about its value. The opacity is said up to clamping, since a
single colour is what it is and only an operation clamps. -/
inductive Computed (operands : List Node) : Node → Prop
  | number {q : Quantity} (hall : ∀ n ∈ operands, ∃ p, n = .number p)
      (hunit : q.unit = firstUnit operands) : Computed operands (.number q)
  | color {c : Color} (hsome : ∃ d, Node.color d ∈ operands)
      (halpha : clamp 0 1 c.alpha = leadingAlpha operands) : Computed operands (.color c)

/-- What an operation gives if it gives a colour. -/
def Fresh (operands : List Node) (n : Node) : Prop :=
  ∀ c, n = .color c → c.source = none ∧ c.alpha = leadingAlpha operands

/-- There is always an operand: a node that is no operation is its own. -/
lemma operands_ne_nil (n : Node) : n.operands ≠ [] := by
  induction n using Node.induction with
  | step n ih _ =>
    cases n with
    | operation op left right =>
      simp only [operands, ne_eq, List.append_eq_nil_iff, not_and]
      exact fun hleft => absurd hleft (ih left (by simp [values]))
    | _ => exact List.cons_ne_nil _ _

/-- The first operand decides the opacity, whatever comes after it. -/
lemma leadingAlpha_append {l : List Node} (h : l ≠ []) (l' : List Node) :
    leadingAlpha (l ++ l') = leadingAlpha l := by
  obtain ⟨n, rest, rfl⟩ := List.exists_cons_of_ne_nil h
  cases n <;> rfl

/-- Numbers say nothing about the opacity, so it stays full. -/
lemma leadingAlpha_of_numbers {l : List Node} (h : ∀ n ∈ l, ∃ p, n = .number p) : leadingAlpha l = 1 := by
  cases l with
  | nil => rfl
  | cons n rest =>
    obtain ⟨p, rfl⟩ := h n List.mem_cons_self
    rfl

/-- The unit of a result is the first one from the left of both operands' units. -/
lemma joinUnits_firstUnit (l l' : List Node) :
    Quantity.joinUnits (firstUnit l) (firstUnit l') = firstUnit (l ++ l') := by
  unfold firstUnit
  rw [List.map_append, List.find?_append]
  cases h : (l.map unit).find? fun u => u ≠ "" with
  | none => rfl
  | some u =>
    have hne : u ≠ "" := by simpa using List.find?_some h
    simp [Quantity.joinUnits, hne]

/-- Where the left colour has the right opacity, the result has it. -/
lemma color_operate_comesTo {operands : List Node} {a : Color}
    (ha : clamp 0 1 a.alpha = leadingAlpha operands) (hsome : ∃ d, Node.color d ∈ operands)
    (op : Operator) (b : Color) :
    ComesTo (fun n => Computed operands n ∧ Fresh operands n) (op = .divide)
      (do return .color (← Color.operate op a b)) := by
  refine (Color.operate_comesTo op a b).bind fun c hc => .ok ?_
  obtain ⟨red, green, blue, rfl⟩ := hc
  refine ⟨.color hsome ?_, ?_⟩
  · exact (clamp_clamp exactValue?_zero exactValue?_one zero_le_one a.alpha).trans ha
  · intro c hc
    cases hc
    exact ⟨rfl, ha⟩

/-- **One operation.** What the operands on both sides say about the values there, all operands together say
about the result. -/
lemma Computed.operate {l l' : List Node} {a b : Node} (ha : Computed l a) (hb : Computed l' b)
    (hne : l ≠ []) (op : Operator) :
    ComesTo (fun n => Computed (l ++ l') n ∧ Fresh (l ++ l') n) (op = .divide) (Node.operate op a b) := by
  cases ha with
  | @number p hp hpunit =>
    cases hb with
    | @number q hq hqunit =>
      refine (Quantity.operate_comesTo op p q).bind fun r hr => .ok ⟨.number ?_ ?_, ?_⟩
      · intro n hn
        rcases List.mem_append.mp hn with hn | hn
        · exact hp n hn
        · exact hq n hn
      · rw [hr, hpunit, hqunit, joinUnits_firstUnit]
      · intro c hc
        cases hc
    | @color b hsome _ =>
      obtain ⟨d, hd⟩ := hsome
      refine color_operate_comesTo ?_ ⟨d, List.mem_append_right l hd⟩ op b
      rw [leadingAlpha_append hne, leadingAlpha_of_numbers hp]
      show clamp 0 1 (clamp 0 1 1) = 1
      rw [clamp_zero_one_one, clamp_zero_one_one]
  | color hsome halpha =>
    obtain ⟨d, hd⟩ := hsome
    rw [← leadingAlpha_append hne l'] at halpha
    cases hb with
    | number => exact color_operate_comesTo halpha ⟨d, List.mem_append_left l' hd⟩ op _
    | color => exact color_operate_comesTo halpha ⟨d, List.mem_append_left l' hd⟩ op _

/-- Numbers and colours are computed already. -/
lemma Operand.computed {n : Node} (h : n.Operand) : Computed n.operands n := by
  cases h with
  | number q =>
    refine .number (fun n hn => ⟨q, List.mem_singleton.mp hn⟩) ?_
    by_cases hunit : q.unit = ""
    · simp [firstUnit, operands, unit, hunit]
    · simp [firstUnit, operands, unit, hunit]
  | color c => exact .color ⟨c, List.mem_singleton.mpr rfl⟩ rfl

/-- An operation on two calculations. -/
lemma calculate_operation_comesTo {left right : Node}
    (hleft : ComesTo (Computed left.operands) (.divide ∈ left.operators) left.calculate)
    (hright : ComesTo (Computed right.operands) (.divide ∈ right.operators) right.calculate)
    (op : Operator) :
    ComesTo
      (fun n => Computed (left.operands ++ right.operands) n ∧ Fresh (left.operands ++ right.operands) n)
      (.divide ∈ (operation op left right).operators) (operation op left right).calculate := by
  have hmem : ∀ o, o ∈ (operation op left right).operators ↔
      o ∈ left.operators ∨ o = op ∨ o ∈ right.operators := by
    simp [operators]
  refine (hleft.mono (fun _ h => h) fun h => (hmem _).mpr (.inl h)).bind fun a ha => ?_
  refine (hright.mono (fun _ h => h) fun h => (hmem _).mpr (.inr (.inr h))).bind fun b hb => ?_
  exact (ha.operate hb left.operands_ne_nil op).mono (fun _ h => h)
    fun h => (hmem _).mpr (.inr (.inl h.symm))

/-- **A whole calculation.** What its operands say holds of its value, and it has a value unless it
divides. -/
lemma calculate_comesTo {n : Node} (h : ∀ k ∈ n.operands, k.Operand) :
    ComesTo (Computed n.operands) (.divide ∈ n.operators) n.calculate := by
  induction n using Node.induction with
  | step n ih _ =>
    cases n with
    | operation op left right =>
      have hleft := ih left (by simp [values]) fun k hk => h k (List.mem_append_left _ hk)
      have hright := ih right (by simp [values]) fun k hk => h k (List.mem_append_right _ hk)
      exact (calculate_operation_comesTo hleft hright op).mono (fun _ h => h.1) fun h => h
    | number q => exact .ok (Operand.number q).computed
    | color c => exact .ok (Operand.color c).computed
    | _ => cases h _ (List.mem_singleton.mpr rfl)

/-! ## Evaluating calculations

Evaluation takes a calculation in the way that `calculate` does: both sides first, and then the operator.
The operands at the ends evaluate to themselves. -/

/-- **A calculation takes nothing from its surroundings**, and leaves no trace in the memory. By induction
on the tree of operations, whose ends are numbers and colours, which evaluate to themselves. -/
theorem evaluate_yields_calculate {n : Node} (h : ∀ k ∈ n.operands, k.Operand) (env : Env)
    (scope : Scope) (m : Memory) :
    Yields (fun fuel => n.evaluate fuel env scope) m (n.calculate, m) := by
  induction n using Node.induction with
  | step n ih _ =>
    refine .of_succ ?_
    cases n with
    | operation op left right =>
      have hleft := ih left (by simp [values]) fun k hk => h k (List.mem_append_left _ hk)
      have hright := ih right (by simp [values]) fun k hk => h k (List.mem_append_right _ hk)
      show Yields (fun fuel => do
        let a ← left.evaluate fuel env scope
        let b ← right.evaluate fuel env scope
        liftM (Node.operate op a b)) m ((do
          let a ← left.calculate
          let b ← right.calculate
          Node.operate op a b), m)
      cases ha : left.calculate with
      | error e =>
        rw [ha] at hleft
        exact hleft.bind_error
      | ok a =>
        rw [ha] at hleft
        apply hleft.bind
        cases hb : right.calculate with
        | error e =>
          rw [hb] at hright
          exact hright.bind_error
        | ok b =>
          rw [hb] at hright
          exact hright.bind (.const _ m)
    | number q => exact .const _ m
    | color c => exact .const _ m
    | _ => cases h _ (List.mem_singleton.mpr rfl)

/-- **What a calculation comes to.** In every environment and scope, an operation tree over numbers and
colours fails with a division by zero, for which it has to divide; or it gives a colour, exactly if there is
one among its operands, and that colour has no text and the opacity of the operand on the far left; or it
gives a number with the first unit from the left. -/
theorem operation_comesTo (op : Operator) (left right : Node)
    (h : ∀ k ∈ (operation op left right).operands, k.Operand) (env : Env) (scope : Scope) (m : Memory) :
    ∃ result, Yields (fun fuel => (operation op left right).evaluate fuel env scope) m (result, m) ∧
      ((∃ e, result = .error e ∧ e.category = .fault ∧ e.message = "Division by zero" ∧
          .divide ∈ (operation op left right).operators) ∨
        (∃ c, result = .ok (.color c) ∧ (∃ d, .color d ∈ (operation op left right).operands) ∧
          c.source = none ∧ c.alpha = leadingAlpha (operation op left right).operands) ∨
        ∃ q, result = .ok (.number q) ∧
          (∀ k ∈ (operation op left right).operands, ∃ p, k = .number p) ∧
          q.unit = firstUnit (operation op left right).operands) := by
  refine ⟨_, evaluate_yields_calculate h env scope m, ?_⟩
  have hleft := calculate_comesTo fun k hk => h k (List.mem_append_left _ hk)
  have hright := calculate_comesTo fun k hk => h k (List.mem_append_right _ hk)
  have hwhole := calculate_operation_comesTo hleft hright op
  generalize (operation op left right).calculate = result at hwhole ⊢
  cases hwhole with
  | byZero hdivides => exact .inl ⟨_, rfl, rfl, rfl, hdivides⟩
  | @ok n hn =>
    obtain ⟨hcomputed, hfresh⟩ := hn
    cases hcomputed with
    | @number q hall hunit => exact .inr (.inr ⟨q, rfl, hall, hunit⟩)
    | @color c hsome _ =>
      obtain ⟨hsource, halpha⟩ := hfresh c rfl
      exact .inr (.inl ⟨c, rfl, hsome, hsource, halpha⟩)

/-- `2 * 40px - n`, for some operand `n`. -/
def productSample (n : Node) : Node :=
  .operation .subtract (.operation .multiply (.number ⟨2, ""⟩) (.number ⟨40, "px"⟩)) n

/-- The product is `80px`, and a channel of the difference is what is left of 80. -/
lemma calculate_productSample_color :
    (productSample (.color ⟨17, 34, 51, 0.5, some "#123"⟩)).calculate =
      .ok (.color ⟨63, 46, 29, 1, none⟩) := by
  have hred : clamp 0 255 (clamp 0 255 (2 * 40) - 17) = 63 := by decide +kernel
  have hgreen : clamp 0 255 (clamp 0 255 (2 * 40) - 34) = 46 := by decide +kernel
  have hblue : clamp 0 255 (clamp 0 255 (2 * 40) - 51) = 29 := by decide +kernel
  have halpha : clamp 0 1 (clamp 0 1 1) = 1 := by decide +kernel
  rw [← hred, ← hgreen, ← hblue, ← halpha]
  rfl

/-- With a number as the last operand the product is one number, in the unit that comes first. -/
lemma calculate_productSample_number :
    (productSample (.number ⟨1, "em"⟩)).calculate = .ok (.number ⟨79, "px"⟩) := by
  have hvalue : (2 : Float) * 40 - 1 = 79 := by decide +kernel
  rw [← hvalue]
  rfl

/-- A half transparent colour at the end makes the result an opaque colour; a number there makes it a number
in pixels. -/
theorem operation_comesTo_productSample :
    (∃ c, Yields (fun fuel => (productSample (.color ⟨17, 34, 51, 0.5, some "#123"⟩)).evaluate fuel {} [])
        .empty (.ok (.color c), .empty) ∧ c.source = none ∧ c.alpha = 1 ∧
        c.red = 63 ∧ c.green = 46 ∧ c.blue = 29) ∧
      ∃ q, Yields (fun fuel => (productSample (.number ⟨1, "em"⟩)).evaluate fuel {} [])
        .empty (.ok (.number q), .empty) ∧ q.unit = "px" ∧ q.value = 79 := by
  have hoperands : ∀ n : Node, n.Operand →
      ∀ k ∈ [Node.number ⟨2, ""⟩, .number ⟨40, "px"⟩, n], k.Operand := by
    intro n hn
    simp only [List.mem_cons, List.not_mem_nil, or_false, forall_eq_or_imp, forall_eq]
    exact ⟨.number _, .number _, hn⟩
  have hyields : ∀ n : Node, n.Operand → Yields (fun fuel => (productSample n).evaluate fuel {} []) .empty
      ((productSample n).calculate, .empty) := by
    intro n hn
    have hall := hoperands n hn
    refine evaluate_yields_calculate ?_ {} [] .empty
    cases hn <;> exact hall
  constructor
  · obtain ⟨result, hresult, ⟨_, -, -, -, hdivides⟩ | ⟨c, rfl, -, hsource, halpha⟩ | ⟨_, -, hall, -⟩⟩ :=
      operation_comesTo .subtract (.operation .multiply (.number ⟨2, ""⟩) (.number ⟨40, "px"⟩))
        (.color ⟨17, 34, 51, 0.5, some "#123"⟩) (hoperands _ (.color _)) {} [] .empty
    · exact absurd hdivides (by decide)
    · have hvalue := hresult.unique (hyields _ (.color _))
      rw [calculate_productSample_color] at hvalue
      cases hvalue
      exact ⟨_, hresult, hsource, halpha, rfl, rfl, rfl⟩
    · obtain ⟨p, hp⟩ := hall (.color ⟨17, 34, 51, 0.5, some "#123"⟩) (by simp [operands])
      cases hp
  · obtain ⟨result, hresult, ⟨_, -, -, -, hdivides⟩ | ⟨_, -, hsome, -⟩ | ⟨q, rfl, -, hunit⟩⟩ :=
      operation_comesTo .subtract (.operation .multiply (.number ⟨2, ""⟩) (.number ⟨40, "px"⟩))
        (.number ⟨1, "em"⟩) (hoperands _ (.number _)) {} [] .empty
    · exact absurd hdivides (by decide)
    · obtain ⟨d, hd⟩ := hsome
      simp [operands] at hd
    · have hvalue := hresult.unique (hyields _ (.number _))
      rw [calculate_productSample_number] at hvalue
      cases hvalue
      exact ⟨_, hresult, hunit, rfl⟩

end Node

end Stylesheet
