import OverlayMotion.Number.Binary64
import OverlayMotion.Text.Unicode
/-! Decimal numerals read into doubles: what a numeral is worth, and which texts are
numerals. The tests are on runs of digits, so that each format says for itself which
characters such a run may hold. -/
namespace OverlayMotion.Decimal
open Text

def splitExponent (cs : List Char) : List Char × List Char :=
  cs.span fun c => c ≠ 'e' ∧ c ≠ 'E'

def splitPoint (cs : List Char) : List Char × List Char := cs.span (· ≠ '.')

def numeral (cs : List Char) : Nat × Int :=
  let (mantissa, tail) := splitExponent cs
  let (whole, fraction) := splitPoint mantissa
  let shown := readDigits tail
  let exponent : Int := if tail.contains '-' then -(shown : Int) else shown
  (readDigits (whole ++ fraction), exponent - (fraction.countP isDigit : Nat))

def isGroupedRun (digit : Char → Bool) : List Char → Bool
  | [] => false
  | [c] => digit c
  | c :: '_' :: rest => digit c && isGroupedRun digit rest
  | c :: rest => digit c && isGroupedRun digit rest

def dropSign : List Char → List Char
  | '-' :: rest => rest
  | '+' :: rest => rest
  | cs => cs

def isNumeral (run : List Char → Bool) (cs : List Char) : Bool :=
  let (mantissa, tail) := splitExponent cs
  let (whole, fraction) := splitPoint mantissa
  let mantissaFits := match fraction with
    | [] => run whole
    | [_] => run whole
    | _ :: ds => (whole.isEmpty || run whole) && run ds
  let exponentFits := match tail with
    | [] => true
    | _ :: exponent => run (dropSign exponent)
  mantissaFits && exponentFits

def named? (cs : List Char) : Option Float :=
  match String.ofList (cs.map Char.toLower) with
  | "inf" | "infinity" => some Binary64.infinity
  | "nan" => some Binary64.undefined
  | _ => none

def read? (run : List Char → Bool) (cs : List Char) : Option Float :=
  let negative := cs.head? = some '-'
  let body := dropSign cs
  match named? body with
  | some x => some (Binary64.withSign negative x)
  | none =>
    if isNumeral run body then
      let (digits, exponent) := numeral body
      some (Binary64.ofDecimal negative digits exponent)
    else none

def isPadding (c : Char) : Bool := isBlank c && !(28 ≤ c.toNat && c.toNat ≤ 31)

def dropPadding (cs : List Char) : List Char :=
  ((cs.dropWhile isPadding).reverse.dropWhile isPadding).reverse

def readFloat? (cs : List Char) : Option Float := read? (isGroupedRun isDigit) (dropPadding cs)

def readInteger? (digitLimit : Nat) (cs : List Char) : Option Int :=
  let cs := dropPadding cs
  let body := dropSign cs
  if isGroupedRun isDigit body && body.countP isDigit ≤ digitLimit then
    let n : Int := readDigits body
    some (if cs.head? = some '-' then -n else n)
  else none

end OverlayMotion.Decimal
