import Stylesheet.Decimal.Text
import Stylesheet.Error

/-!
# Quantities: numbers with a unit

An operator on plain numbers is the operation of the binary64 format, so an overflow gives an infinity
and `0 · ∞` gives NaN; but division by either zero is a fault.

`4px`, `50%` and `2` are quantities. Units are not checked or converted: the unit of a result is
the left one, or the right one if the left operand has none, so `2 * 4px` is `8px` and
`10px / 2px` is `5px`.
-/

namespace Stylesheet

/-- The result of an operator on two numbers. -/
def Operator.apply (op : Operator) (left right : Float) : Except EvalError Float :=
  match op with
  | add => .ok (left + right)
  | subtract => .ok (left - right)
  | multiply => .ok (left * right)
  | divide => if right == 0 then .error .divisionByZero else .ok (left / right)

/-- Division by zero is the only way in which an operator fails. -/
theorem Operator.apply_eq_error {op : Operator} {left right : Float} {e : EvalError}
    (h : op.apply left right = .error e) : e = .divisionByZero := by
  cases op <;> simp only [Operator.apply] at h <;> try contradiction
  split at h
  · exact (Except.error.inj h).symm
  · contradiction

/-- A number with a unit; the unit of a plain number is empty. -/
structure Quantity where
  /-- The number. -/
  value : Float
  /-- The unit as written, `px` or `%`. -/
  unit : String
  deriving Repr

namespace Quantity

/-- Quantities are equal if their numbers are, in the sense of the format, and their units are the
same. So NaN is equal to nothing, and the two zeros are equal. -/
instance : BEq Quantity where
  beq p q := p.value == q.value && p.unit == q.unit

/-- A number without unit. -/
def plain (value : Float) : Quantity :=
  ⟨value, ""⟩

/-- Whether the quantity is a percentage. -/
def isPercentage (q : Quantity) : Bool :=
  q.unit == "%"

/-- The unit of a result: the left one if there is one, else the right one. -/
def joinUnits (left right : String) : String :=
  if left == "" then right else left

/-- The result of an operator on two quantities. -/
def operate (op : Operator) (p q : Quantity) : Except EvalError Quantity := do
  return ⟨← op.apply p.value q.value, joinUnits p.unit q.unit⟩

/-- The quantity as a style sheet shows it: the number directly followed by the unit. -/
def toCss (q : Quantity) : String :=
  Decimal.numberText q.value ++ q.unit

end Quantity

end Stylesheet
