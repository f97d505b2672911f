import OverlayMotion.Number
import OverlayMotion.Decimal
/-! The numbers of a running program: integers of any size beside doubles. Integers
stay exact among themselves; beside a double they are rounded to one first, except
in comparisons, which are exact. -/
namespace OverlayMotion

inductive Scalar
  | int (value : Int)
  | float (value : Float)

namespace Scalar
open Binary64 (decode)

def toFloat : Scalar → Except Fault Float
  | int n => match Binary64.ofInt? n with
    | some x => .ok x
    | none => .error .integerTooLarge
  | float x => .ok x

def compareInt (n : Int) (d : Binary64.Decoded) : Ordering :=
  let signed : Int := if d.negative then -(d.significand : Int) else d.significand
  if 0 ≤ d.exponent then compare n (signed * Nat.pow 2 d.exponent.toNat)
  else compare (n * Nat.pow 2 (-d.exponent).toNat) signed

def compare? : Scalar → Scalar → Option Ordering
  | int a, int b => some (compare a b)
  | float a, float b => if a < b then some .lt else if b < a then some .gt
    else if a == b then some .eq else none
  | int a, float b => match decode b with
    | some d => some (compareInt a d)
    | none => if b.isNaN then none else some (if Binary64.signBit b then .gt else .lt)
  | float a, int b => match decode a with
    | some d => some (compareInt b d).swap
    | none => if a.isNaN then none else some (if Binary64.signBit a then .lt else .gt)

def neg : Scalar → Scalar
  | int n => int (-n)
  | float x => float (-x)

def abs : Scalar → Scalar
  | int n => int n.natAbs
  | float x => float x.abs

def mixed (exact : Int → Int → Int) (rounded : Float → Float → Float) :
    Scalar → Scalar → Except Fault Scalar
  | int a, int b => .ok (int (exact a b))
  | a, b => do
    let x ← a.toFloat
    let y ← b.toFloat
    return float (rounded x y)

def add : Scalar → Scalar → Except Fault Scalar := mixed (· + ·) (· + ·)
def sub : Scalar → Scalar → Except Fault Scalar := mixed (· - ·) (· - ·)
def mul : Scalar → Scalar → Except Fault Scalar := mixed (· * ·) (· * ·)

def div : Scalar → Scalar → Except Fault Scalar
  | int a, int b =>
    if b = 0 then .error .divisionByZero
    else match Binary64.nearest? (decide (a < 0) != decide (b < 0)) a.natAbs b.natAbs with
      | some x => .ok (float x)
      | none => .error .quotientTooLarge
  | a, b => do
    let x ← a.toFloat
    let y ← b.toFloat
    if y == 0 then .error .divisionByZero
    else return float (x / y)

def isWhole (x : Float) : Bool :=
  match decode x with
  | some d => !d.split.2
  | none => false

def isOdd (x : Float) : Bool :=
  match decode x with
  | some d => !d.split.2 && d.split.1 % 2 == 1
  | none => false

def powZero (zero exponent : Float) : Except Fault Float :=
  if exponent.isNaN then .ok exponent
  else if exponent < 0 then
    if exponent.isInf then .ok Binary64.infinity else .error .divisionByZero
  else .ok (if isOdd exponent then zero else 0)

def grows (base exponent : Float) : Bool :=
  if exponent < 0 then decide (base.abs < 1) else decide (1 < base.abs)

def powFloat (x y : Float) : Except Fault Float :=
  if y == 0 then .ok 1
  else if x == 0 then powZero x y
  else if !x.isFinite || !y.isFinite then .ok (x ^ y)
  else if x < 0 && !isWhole y then
    .error (if ((-x) ^ y).isInf then .complexPowerTooLarge else .powerNotReal)
  else
    let result := x ^ y
    if grows x y && result.isInf then .error .powerTooLarge else .ok result

def pow : Scalar → Scalar → Except Fault Scalar
  | int a, int b =>
    if 0 ≤ b then .ok (int (Int.pow a b.toNat))
    else do
      let x ← (int a).toFloat
      let y ← (int b).toFloat
      float <$> powFloat x y
  | a, b => do
    let x ← a.toFloat
    let y ← b.toFloat
    float <$> powFloat x y

def sine (x : Float) : Float := if x == 0 then x else x.sin

def cosine (x : Float) : Float := if x == 0 then 1 else x.cos

def periodic (f : Float → Float) (v : Scalar) : Except Fault Scalar := do
  let x ← v.toFloat
  if x.isInf then .error .outsideDomain else return float (f x)

def sqrt (v : Scalar) : Except Fault Scalar := do
  let x ← v.toFloat
  if x < 0 then .error .outsideDomain else return float x.sqrt

def toInteger (round : Binary64.Decoded → Int) : Scalar → Except Fault Scalar
  | int n => .ok (int n)
  | float x => match decode x with
    | some d => .ok (int (round d))
    | none => .error (if x.isNaN then .undefinedInteger else .infiniteInteger)

instance : Number Scalar where
  ofInt := int
  ofDecimal digits exponent := float (Binary64.ofDecimal false digits exponent)
  eq a b := compare? a b == some .eq
  lt a b := compare? a b == some .lt
  le a b := match compare? a b with
    | some o => o.isLE
    | none => false
  neg := neg
  abs := abs
  add := add
  sub := sub
  mul := mul
  div := div
  pow := pow
  sin := periodic sine
  cos := periodic cosine
  sqrt := sqrt
  floor := toInteger Binary64.Decoded.floor
  ceil := toInteger Binary64.Decoded.ceil
  trunc := toInteger Binary64.Decoded.trunc
  finite? v := return (decode (← v.toFloat)).map Binary64.Decoded.toRat

def plain : Scalar → String
  | int n => toString n
  | float x => Decimal.plain x

def general (v : Scalar) : String :=
  match v.toFloat with
  | .ok x => Decimal.general x
  | .error _ => v.plain

end Scalar

end OverlayMotion
