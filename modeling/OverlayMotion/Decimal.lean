import OverlayMotion.Number.Binary64
/-! Decimal text of exact numbers: the fewest digits that read back as the same
double, a fixed number of places, and a fixed number of significant digits. -/
namespace OverlayMotion.Decimal
open Binary64 (roundHalfEven)

def digits (n : Nat) : List Char := Nat.toDigits 10 n

def padded (width n : Nat) : List Char :=
  let ds := digits n
  List.replicate (width - ds.length) '0' ++ ds

def dropTrailingZeros (ds : List Char) : List Char :=
  (ds.reverse.dropWhile (· = '0')).reverse

def magnitude (num den : Nat) : Int :=
  let guess : Int := (digits num).length - (digits den).length
  let reached := if 0 ≤ guess then decide (den * Nat.pow 10 guess.toNat ≤ num)
    else decide (den ≤ num * Nat.pow 10 (-guess).toNat)
  if reached then guess else guess - 1

def scaleDown (num den : Nat) (exponent : Int) : Nat × Nat :=
  if 0 ≤ exponent then (num, den * Nat.pow 10 exponent.toNat)
  else (num * Nat.pow 10 (-exponent).toNat, den)

def fixedParts (places num den : Nat) : List Char × List Char :=
  let scaled := roundHalfEven (num * Nat.pow 10 places) den
  (digits (scaled / Nat.pow 10 places), padded places (scaled % Nat.pow 10 places))

def fixed (places num den : Nat) : List Char :=
  let (whole, fraction) := fixedParts places num den
  if places = 0 then whole else whole ++ '.' :: fraction

def compact (places num den : Nat) : List Char :=
  let (whole, fraction) := fixedParts places num den
  match dropTrailingZeros fraction with
  | [] => whole
  | kept => whole ++ '.' :: kept

def exponentText (e : Int) : List Char :=
  'e' :: (if e < 0 then '-' else '+') :: padded 2 e.natAbs

def significant (count num den : Nat) : List Char :=
  let guess := magnitude num den
  let scaled := scaleDown num den (guess - (count - 1 : Nat))
  let rounded := roundHalfEven scaled.1 scaled.2
  let exponent := if rounded = Nat.pow 10 count then guess + 1 else guess
  if -4 ≤ exponent ∧ exponent < count then
    compact (count - 1 - exponent).toNat num den
  else
    let ds := digits (if rounded = Nat.pow 10 count then Nat.pow 10 (count - 1) else rounded)
    let fraction := dropTrailingZeros ds.tail
    ds.head?.toList ++ (if fraction.isEmpty then [] else '.' :: fraction) ++ exponentText exponent

/-- The magnitudes that round to a given double, as four times the ends of an interval
over one denominator; the ends belong to it when the significand is even. -/
structure Neighbourhood where
  low : Nat
  high : Nat
  den : Nat
  closed : Bool

def neighbourhood (significand : Nat) (exponent : Int) : Neighbourhood :=
  let below := if significand = Nat.pow 2 52 ∧ -1074 < exponent then 1 else 2
  let low := 4 * significand - below
  let high := 4 * significand + 2
  let closed := decide (significand % 2 = 0)
  if 0 ≤ exponent then ⟨low * Nat.pow 2 exponent.toNat, high * Nat.pow 2 exponent.toNat, 4, closed⟩
  else ⟨low, high, 4 * Nat.pow 2 (-exponent).toNat, closed⟩

def Neighbourhood.contains (n : Neighbourhood) (digits : Nat) (exponent : Int) : Bool :=
  let (num, den) := if 0 ≤ exponent then (digits * Nat.pow 10 exponent.toNat, 1)
    else (digits, Nat.pow 10 (-exponent).toNat)
  let value := num * n.den
  if n.closed then decide (n.low * den ≤ value ∧ value ≤ n.high * den)
  else decide (n.low * den < value ∧ value < n.high * den)

def onGrid (n : Neighbourhood) (num den : Nat) (exponent : Int) : Option Nat :=
  let scaled := scaleDown num den exponent
  let lower := scaled.1 / scaled.2
  match n.contains lower exponent, n.contains (lower + 1) exponent with
  | true, true => some (roundHalfEven scaled.1 scaled.2)
  | true, false => some lower
  | false, true => some (lower + 1)
  | false, false => none

def finestNeeded (n : Neighbourhood) (num den : Nat) : (tries : Nat) → (exponent : Int) → Nat × Int
  | 0, exponent =>
    let scaled := scaleDown num den exponent
    (roundHalfEven scaled.1 scaled.2, exponent)
  | tries + 1, exponent =>
    match onGrid n num den exponent with
    | some ds => (ds, exponent)
    | none => finestNeeded n num den tries (exponent - 1)

def shortest (d : Binary64.Decoded) : Nat × Int :=
  let (num, den) := d.ratio
  finestNeeded (neighbourhood d.significand d.exponent) num den 17 (magnitude num den)

def plainMagnitude (d : Binary64.Decoded) : List Char :=
  if d.significand = 0 then ['0', '.', '0']
  else
    let (value, last) := shortest d
    let ds := dropTrailingZeros (digits value)
    let exponent : Int := last + ((digits value).length : Int) - 1
    if exponent < -4 ∨ 16 ≤ exponent then
      let fraction := ds.tail
      ds.head?.toList ++ (if fraction.isEmpty then [] else '.' :: fraction) ++ exponentText exponent
    else if exponent < 0 then
      '0' :: '.' :: (List.replicate (-exponent - 1).toNat '0' ++ ds)
    else
      let wholeLength := exponent.toNat + 1
      let fraction := ds.drop wholeLength
      ds.take wholeLength ++ List.replicate (wholeLength - ds.length) '0' ++ '.' ::
        (if fraction.isEmpty then ['0'] else fraction)

def ofFloat (render : Binary64.Decoded → List Char) (x : Float) : String :=
  match Binary64.decode x with
  | some d => String.ofList (if d.negative then '-' :: render d else render d)
  | none => if x.isNaN then "nan" else if Binary64.signBit x then "-inf" else "inf"

def plain (x : Float) : String := ofFloat plainMagnitude x

def general (x : Float) : String :=
  ofFloat (fun d => if d.significand = 0 then ['0'] else significant 6 d.ratio.1 d.ratio.2) x

def withPlaces (places : Nat) (x : Float) : String :=
  ofFloat (fun d => fixed places d.ratio.1 d.ratio.2) x

def nineDecimals (q : Rat) : List Char :=
  let magnitude := compact 9 q.num.natAbs q.den
  if q < 0 ∧ magnitude ≠ ['0'] then '-' :: magnitude else magnitude

end OverlayMotion.Decimal
