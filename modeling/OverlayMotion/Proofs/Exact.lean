import Mathlib.Algebra.Order.Field.Rat
import Mathlib.Data.Rat.Floor
import OverlayMotion.Expr.Eval
import OverlayMotion.Proofs.Outcome

/-! Expressions over exact rationals. What rationals lack, such as sines and roots, is
left open; of powers only that the first power of a number is the number. Over them a
builder folds without changing a value: wherever the plain node has one, the tree that is
built has the same. -/
namespace OverlayMotion

/-- A reading of the functions that leave the rationals. -/
class Reading where
  sin : Rat → Rat
  cos : Rat → Except Fault Rat
  sqrt : Rat → Except Fault Rat
  pow : Rat → Rat → Except Fault Rat
  powOne : ∀ x, pow x 1 = .ok x

@[reducible] def wholePowers : Reading where
  sin _ := 0
  cos _ := .error .outsideDomain
  sqrt _ := .error .outsideDomain
  pow x y :=
    if y.den ≠ 1 then .error .powerNotReal
    else if x = 0 ∧ y < 0 then .error .divisionByZero
    else .ok (x ^ y.num)
  powOne x := by simp

variable [Reading]

instance exactNumber : Number Rat where
  ofInt n := n
  ofDecimal digits exponent := digits * 10 ^ exponent
  eq a b := decide (a = b)
  lt a b := decide (a < b)
  le a b := decide (a ≤ b)
  neg a := -a
  abs a := |a|
  add a b := .ok (a + b)
  sub a b := .ok (a - b)
  mul a b := .ok (a * b)
  div a b := if b = 0 then .error .divisionByZero else .ok (a / b)
  pow := Reading.pow
  sin a := .ok (Reading.sin a)
  cos := Reading.cos
  sqrt := Reading.sqrt
  floor a := .ok ⌊a⌋
  ceil a := .ok ⌈a⌉
  trunc a := .ok (if a < 0 then ⌈a⌉ else ⌊a⌋)
  finite? a := .ok (some a)

section
variable (a b : Rat)

@[simp] theorem exactOfInt (n : Int) : (Number.ofInt n : Rat) = n := rfl

@[simp] theorem exactOfDecimal (digits : Nat) (exponent : Int) :
    (Number.ofDecimal digits exponent : Rat) = digits * 10 ^ exponent := rfl

@[simp] theorem exactEq : Number.eq a b = decide (a = b) := rfl

@[simp] theorem exactLt : Number.lt a b = decide (a < b) := rfl

@[simp] theorem exactLe : Number.le a b = decide (a ≤ b) := rfl

@[simp] theorem exactNeg : Number.neg a = -a := rfl

@[simp] theorem exactAdd : Number.add a b = .ok (a + b) := rfl

@[simp] theorem exactSub : Number.sub a b = .ok (a - b) := rfl

@[simp] theorem exactMul : Number.mul a b = .ok (a * b) := rfl

@[simp] theorem exactSin : Number.sin a = .ok (Reading.sin a) := rfl

@[simp] theorem exactPow : Number.pow a b = Reading.pow a b := rfl

variable {a b} in
theorem exactDiv (divisor : b ≠ 0) : Number.div a b = .ok (a / b) := if_neg divisor

@[simp] theorem exactIsZero : Number.isZero a = decide (a = 0) := by
  simp [Number.isZero, Number.zero]

@[simp] theorem exactIsOne : Number.isOne a = decide (a = 1) := by
  simp [Number.isOne, Number.one]

@[simp] theorem exactIsNegative : Number.isNegative a = decide (a < 0) := by
  simp [Number.isNegative, Number.zero]

@[simp] theorem exactIsPositive : Number.isPositive a = decide (0 < a) := by
  simp [Number.isPositive, Number.zero]

@[simp] theorem exactIsNonPositive : Number.isNonPositive a = decide (a ≤ 0) := by
  simp [Number.isNonPositive, Number.zero]

@[simp] theorem exactOfBool (test : Bool) :
    (Number.ofBool test : Rat) = if test then 1 else 0 := by
  cases test <;> simp [Number.ofBool]

@[simp] theorem exactMin : Number.min a b = min a b := by
  simp only [Number.min, exactLt, decide_eq_true_eq, min_def]
  split_ifs <;> grind

@[simp] theorem exactMax : Number.max a b = max a b := by
  simp only [Number.max, exactLt, decide_eq_true_eq, max_def]
  split_ifs <;> grind

end

end OverlayMotion
