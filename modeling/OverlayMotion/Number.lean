/-! The number systems that expressions are computed in. An expression tree, its
builders and its evaluator only use the operations listed here, so one compiler
serves doubles beside unbounded integers and exact rationals alike. Operations
that can lack a result say why. -/
namespace OverlayMotion

inductive Fault
  | divisionByZero
  | outsideDomain
  | powerTooLarge
  | powerNotReal
  | complexPowerTooLarge
  | infiniteInteger
  | undefinedInteger
  | integerTooLarge
  | quotientTooLarge
  deriving DecidableEq, Repr

def Fault.message : Fault → String
  | .divisionByZero => "division by zero"
  | .outsideDomain => "math domain error"
  | .powerTooLarge => "(34, 'Numerical result out of range')"
  | .powerNotReal => "complex result"
  | .complexPowerTooLarge => "complex exponentiation"
  | .infiniteInteger => "cannot convert float infinity to integer"
  | .undefinedInteger => "cannot convert float NaN to integer"
  | .integerTooLarge => "int too large to convert to float"
  | .quotientTooLarge => "integer division result too large for a float"

/-- A number system. `eq`, `lt` and `le` are tests and need not be a total order:
an undefined value fails all three. -/
class Number (ν : Type) where
  ofInt : Int → ν
  ofDecimal : (digits : Nat) → (exponent : Int) → ν
  eq : ν → ν → Bool
  lt : ν → ν → Bool
  le : ν → ν → Bool
  neg : ν → ν
  abs : ν → ν
  add : ν → ν → Except Fault ν
  sub : ν → ν → Except Fault ν
  mul : ν → ν → Except Fault ν
  div : ν → ν → Except Fault ν
  pow : ν → ν → Except Fault ν
  sin : ν → Except Fault ν
  cos : ν → Except Fault ν
  sqrt : ν → Except Fault ν
  floor : ν → Except Fault ν
  ceil : ν → Except Fault ν
  trunc : ν → Except Fault ν
  finite? : ν → Except Fault (Option Rat)

namespace Number

variable {ν : Type} [Number ν]

def zero : ν := ofInt 0
def one : ν := ofInt 1

def isZero (v : ν) : Bool := eq v zero

def isOne (v : ν) : Bool := eq v one

def isNegative (v : ν) : Bool := lt v zero

def isPositive (v : ν) : Bool := lt zero v

def isNonPositive (v : ν) : Bool := le v zero

def ofBool (b : Bool) : ν := ofDecimal (if b then 1 else 0) 0

def min (a b : ν) : ν := if lt b a then b else a

def max (a b : ν) : ν := if lt a b then b else a

def isBetween (value low high : ν) : Bool := le low value && le value high

end Number

end OverlayMotion
