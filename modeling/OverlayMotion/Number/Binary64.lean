/-! Doubles as exact numbers: the ratio a finite double stands for, and the double
nearest to a ratio, a half going to the even significand. -/
namespace OverlayMotion.Binary64

def roundHalfEven (num den : Nat) : Nat :=
  let quotient := num / den
  let twice := 2 * (num % den)
  if twice < den then quotient
  else if den < twice then quotient + 1
  else quotient + quotient % 2

structure Decoded where
  negative : Bool
  significand : Nat
  exponent : Int
  deriving DecidableEq, Repr

def decode (x : Float) : Option Decoded :=
  let bits : Nat := x.toBits.toNat
  let negative := decide (Nat.pow 2 63 ≤ bits)
  let biased : Nat := bits / Nat.pow 2 52 % Nat.pow 2 11
  let fraction : Nat := bits % Nat.pow 2 52
  if biased = 2047 then none
  else if biased = 0 then some ⟨negative, fraction, -1074⟩
  else some ⟨negative, Nat.pow 2 52 + fraction, Int.ofNat biased - 1075⟩

def Decoded.ratio (d : Decoded) : Nat × Nat :=
  if 0 ≤ d.exponent then (d.significand * Nat.pow 2 d.exponent.toNat, 1)
  else (d.significand, Nat.pow 2 (-d.exponent).toNat)

def Decoded.toRat (d : Decoded) : Rat :=
  let (num, den) := d.ratio
  mkRat (if d.negative then -(num : Int) else num) den

def Decoded.split (d : Decoded) : Nat × Bool :=
  let (num, den) := d.ratio
  (num / den, decide (num % den ≠ 0))

def Decoded.floor (d : Decoded) : Int :=
  let (whole, rest) := d.split
  if d.negative then -((if rest then whole + 1 else whole : Nat) : Int) else whole

def Decoded.ceil (d : Decoded) : Int :=
  let (whole, rest) := d.split
  if d.negative then -(whole : Int) else ((if rest then whole + 1 else whole : Nat) : Int)

def Decoded.trunc (d : Decoded) : Int :=
  if d.negative then -(d.split.1 : Int) else d.split.1

/-- The bits of the double nearest to `num / den`, or `none` when it is beyond the
largest one. The significand is rounded on the grid of the ratio's own binade, or
on the finest grid there is; a carry into the next binade needs no care, because
the exponent field follows the significand. -/
def nearestBits (num den : Nat) : Option Nat :=
  if num = 0 then some 0
  else
    let guess : Int := (num.log2 : Int) - den.log2 - 52
    let belowBinade := if 0 ≤ guess then decide (num < den * Nat.pow 2 (guess + 52).toNat)
      else decide (num * Nat.pow 2 (-guess).toNat < den * Nat.pow 2 52)
    let exponent := Max.max (if belowBinade then guess - 1 else guess) (-1074)
    let significand :=
      if 0 ≤ exponent then roundHalfEven num (den * Nat.pow 2 exponent.toNat)
      else roundHalfEven (num * Nat.pow 2 (-exponent).toNat) den
    let bits := (exponent + 1074).toNat * Nat.pow 2 52 + significand
    if bits < 2047 * Nat.pow 2 52 then some bits else none

def infinity : Float := Float.ofBits 0x7FF0000000000000
def undefined : Float := Float.ofBits 0x7FF8000000000000

def withSign (negative : Bool) (x : Float) : Float := if negative then -x else x

def nearest? (negative : Bool) (num den : Nat) : Option Float :=
  (nearestBits num den).map fun bits => withSign negative (Float.ofBits bits.toUInt64)

def ofInt? (n : Int) : Option Float := nearest? (decide (n < 0)) n.natAbs 1

def ofDecimal (negative : Bool) (digits : Nat) (exponent : Int) : Float :=
  let magnitude : Float :=
    -- Far outside the range of doubles the power of ten is not computed.
    if digits = 0 then 0
    else if 400 < exponent then infinity
    else if exponent + digits.log2 < -1200 then 0
    else
      let ratio := if 0 ≤ exponent then (digits * Nat.pow 10 exponent.toNat, 1)
        else (digits, Nat.pow 10 (-exponent).toNat)
      match nearestBits ratio.1 ratio.2 with
      | some bits => Float.ofBits bits.toUInt64
      | none => infinity
  withSign negative magnitude

def signBit (x : Float) : Bool := decide (Nat.pow 2 63 ≤ x.toBits.toNat)

end OverlayMotion.Binary64
