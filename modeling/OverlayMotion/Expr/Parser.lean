import OverlayMotion.Expr
import OverlayMotion.Decimal.Reading
import OverlayMotion.Expr.Token
/-! Reading formula text. Sums are made of products, products of signed factors,
factors of powers; all group to the left but the power, whose exponent is a whole
signed factor. A minus sign negates by the builder, so signs fold on constants and
on each other. -/
namespace OverlayMotion

namespace Expr
open Token (symbol)

variable {ν : Type} [Number ν]

def closing : List Token → Except Malformed (List Token)
  | symbol ')' :: rest => .ok rest
  | _ => .error (.expected (some ')'))

mutual

/-- The first argument bounds the steps. Each of these readers passes on the same tokens
only to a reader further down, and there are seven, so seven steps a token are enough. -/
def readSum : Nat → List Token → Except Malformed (Expr ν × List Token)
  | 0, _ => .error (.expected none)
  | n + 1, tokens => do
    let (first, rest) ← readProduct n tokens
    readSumRest n first rest

def readSumRest : Nat → Expr ν → List Token → Except Malformed (Expr ν × List Token)
  | 0, _, _ => .error (.expected none)
  | n + 1, left, symbol '+' :: tokens => do
    let (right, rest) ← readProduct n tokens
    readSumRest n (.binary .add left right) rest
  | n + 1, left, symbol '-' :: tokens => do
    let (right, rest) ← readProduct n tokens
    readSumRest n (.binary .sub left right) rest
  | _ + 1, left, tokens => .ok (left, tokens)

def readProduct : Nat → List Token → Except Malformed (Expr ν × List Token)
  | 0, _ => .error (.expected none)
  | n + 1, tokens => do
    let (first, rest) ← readSigned n tokens
    readProductRest n first rest

def readProductRest : Nat → Expr ν → List Token → Except Malformed (Expr ν × List Token)
  | 0, _, _ => .error (.expected none)
  | n + 1, left, symbol '*' :: tokens => do
    let (right, rest) ← readSigned n tokens
    readProductRest n (.binary .mul left right) rest
  | n + 1, left, symbol '/' :: tokens => do
    let (right, rest) ← readSigned n tokens
    readProductRest n (.binary .div left right) rest
  | _ + 1, left, tokens => .ok (left, tokens)

def readSigned : Nat → List Token → Except Malformed (Expr ν × List Token)
  | 0, _ => .error (.expected none)
  | n + 1, symbol '-' :: tokens => do
    let (operand, rest) ← readSigned n tokens
    return (negate operand, rest)
  | n + 1, symbol '+' :: tokens => readSigned n tokens
  | n + 1, tokens => readPower n tokens

def readPower : Nat → List Token → Except Malformed (Expr ν × List Token)
  | 0, _ => .error (.expected none)
  | n + 1, tokens => do
    let (base, rest) ← readPrimary n tokens
    match rest with
    | symbol '^' :: rest => do
      let (exponent, rest) ← readSigned n rest
      return (.binary .pow base exponent, rest)
    | _ => return (base, rest)

def readPrimary : Nat → List Token → Except Malformed (Expr ν × List Token)
  | 0, _ => .error (.expected none)
  | _ + 1, [] => .error (.expected none)
  | _ + 1, .number text :: rest =>
    let (digits, exponent) := Decimal.numeral text
    .ok (.const (Number.ofDecimal digits exponent), rest)
  | n + 1, .name text :: symbol '(' :: tokens => do
    let (first, rest) ← readSum n tokens
    let (others, rest) ← readArguments n rest
    let rest ← closing rest
    return (.call (String.ofList text) (first :: others), rest)
  | _ + 1, .name text :: rest => .ok (.var (String.ofList text), rest)
  | n + 1, symbol '(' :: tokens => do
    let (inner, rest) ← readSum n tokens
    let rest ← closing rest
    return (inner, rest)
  | _ + 1, symbol c :: _ => .error (.unexpected [c])

def readArguments : Nat → List Token → Except Malformed (List (Expr ν) × List Token)
  | 0, _ => .error (.expected none)
  | n + 1, symbol ',' :: tokens => do
    let (argument, rest) ← readSum n tokens
    let (others, rest) ← readArguments n rest
    return (argument :: others, rest)
  | _ + 1, tokens => .ok ([], tokens)

end

def ofTokens (tokens : List Token) : Except Malformed (Expr ν) := do
  let (e, rest) ← readSum (7 * tokens.length + 7) tokens
  match rest with
  | [] => return e
  | token :: _ => .error (.unexpected token.text)

def parse (source : String) : Except Malformed (Expr ν) := do
  ofTokens (← Token.tokenize source.toList)

end Expr

end OverlayMotion
