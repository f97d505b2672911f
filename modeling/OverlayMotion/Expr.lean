import OverlayMotion.Number
/-! Expression trees over a number system, and the builders that put formulas
together. A builder folds constants and neutral operands; what it returns has the
value of the plain node wherever that node has one. -/
namespace OverlayMotion

inductive Operator
  | add
  | sub
  | mul
  | div
  | pow
  deriving DecidableEq, Repr

inductive Expr (ν : Type) where
  | const (value : ν)
  | var (name : String)
  | neg (operand : Expr ν)
  | binary (op : Operator) (left right : Expr ν)
  | call (function : String) (arguments : List (Expr ν))

inductive Expr.Failure (ν : Type) where
  | fault (f : Fault)
  | powerNotReal (base exponent : ν)
  | unbound (name : String)
  | unknownFunction (name : String)
  | wrongArity
  | conditionalArity (given : Nat)

namespace Expr

variable {ν : Type} [Number ν]

def ofFault {α : Type} (result : Except Fault α) : Except (Failure ν) α :=
  result.mapError .fault

def ofInt (n : Int) : Expr ν := .const (Number.ofInt n)

def time : Expr ν := .var "t"

def constantAnd (test : ν → Bool) : Expr ν → Bool
  | .const v => test v
  | _ => false

def isZero (e : Expr ν) : Bool := e.constantAnd Number.isZero
def isOne (e : Expr ν) : Bool := e.constantAnd Number.isOne

mutual

def same : Expr ν → Expr ν → Bool
  | .const v, .const w => Number.eq v w
  | .var x, .var y => x == y
  | .neg a, .neg b => same a b
  | .binary p a b, .binary q c d => p == q && same a c && same b d
  | .call f as, .call g bs => f == g && sameAll as bs
  | _, _ => false

def sameAll : List (Expr ν) → List (Expr ν) → Bool
  | [], [] => true
  | a :: as, b :: bs => same a b && sameAll as bs
  | _, _ => false

end

def power (base exponent : ν) : Except (Failure ν) ν :=
  match Number.pow base exponent with
  | .ok v => .ok v
  | .error .powerNotReal => .error (.powerNotReal base exponent)
  | .error f => .error (.fault f)

def folded (compute : ν → ν → Except Fault ν) (a b otherwise : Expr ν) : Except Fault (Expr ν) :=
  match a, b with
  | .const x, .const y => .const <$> compute x y
  | _, _ => .ok otherwise

def negate : Expr ν → Expr ν
  | .const v => .const (Number.neg v)
  | .neg e => e
  | e => .neg e

def add (a b : Expr ν) : Except Fault (Expr ν) :=
  folded Number.add a b
    (if a.isZero then b else if b.isZero then a else .binary .add a b)

def sub (a b : Expr ν) : Except Fault (Expr ν) :=
  folded Number.sub a b
    (if b.isZero then a else if a.isZero then negate b else .binary .sub a b)

def mul (a b : Expr ν) : Except Fault (Expr ν) :=
  folded Number.mul a b
    (if a.isZero || b.isZero then ofInt 0
     else if a.isOne then b else if b.isOne then a else .binary .mul a b)

def div (a b : Expr ν) : Except Fault (Expr ν) :=
  -- A quotient by a constant zero is left to the evaluator, which refuses it if it comes to it.
  if b.isZero then .ok (.binary .div a b)
  else folded Number.div a b (if b.isOne then a else .binary .div a b)

def pow (a b : Expr ν) : Except (Failure ν) (Expr ν) :=
  match a, b with
  | .const x, .const y => .const <$> power x y
  | _, _ => .ok (if b.isOne then a else .call "pow" [a, b])

def sin : Expr ν → Except Fault (Expr ν)
  | .const v => .const <$> Number.sin v
  | e => .ok (.call "sin" [e])

def min (a b : Expr ν) : Expr ν :=
  match a, b with
  | .const x, .const y => .const (Number.min x y)
  | _, _ => .call "min" [a, b]

def max (a b : Expr ν) : Expr ν :=
  match a, b with
  | .const x, .const y => .const (Number.max x y)
  | _, _ => .call "max" [a, b]

def clamp (value low high : Expr ν) : Expr ν := min (max value low) high

def cond (test yes no : Expr ν) : Expr ν :=
  match test with
  | .const v => if Number.isZero v then no else yes
  | _ => if same yes no then yes else .call "if" [test, yes, no]

def lt (a b : Expr ν) : Expr ν := .call "lt" [a, b]

def between (value low high : Expr ν) : Expr ν := .call "between" [value, low, high]

end Expr

end OverlayMotion
