import OverlayMotion.Expr
import OverlayMotion.Decimal
/-! Formula text of an expression tree, with the parentheses it needs to be read back:
around an operand that binds less tightly, around a right operand that binds as
tightly, and around anything signed that is not a whole argument. -/
namespace OverlayMotion

def Operator.symbol : Operator → Char
  | .add => '+'
  | .sub => '-'
  | .mul => '*'
  | .div => '/'
  | .pow => '^'

def Operator.precedence : Operator → Nat
  | .add | .sub => 1
  | .mul | .div => 2
  | .pow => 3

namespace Expr

variable {ν : Type} [Number ν]

inductive Unprintable (ν : Type) where
  | notFinite (value : ν)
  | fault (f : Fault)

def numeralText (v : ν) : Except (Unprintable ν) (List Char) :=
  match Number.finite? v with
  | .ok (some q) => .ok (Decimal.nineDecimals q)
  | .ok none => .error (.notFinite v)
  | .error f => .error (.fault f)

def parenthesized (cs : List Char) : List Char := '(' :: (cs ++ [')'])

def grouped (parent : Nat) (onRight : Bool) (operand : Expr ν) (text : List Char) : List Char :=
  match operand with
  | .binary op _ _ =>
    if op.precedence < parent || (onRight && op.precedence == parent) then parenthesized text
    else text
  | _ => text

def commaSeparated : List (List Char) → List Char
  | [] => []
  | [cs] => cs
  | cs :: rest => cs ++ ',' :: commaSeparated rest

mutual

/-- The text of a tree, variables going by their names in `rename`. A `whole` text
stands alone or as an argument, and needs no parentheses around a sign. -/
def print (rename : String → String) (whole : Bool) :
    Expr ν → Except (Unprintable ν) (List Char)
  | .const v => do
    let text ← numeralText v
    return if whole || Number.le Number.zero v then text else parenthesized text
  | .var name => return (rename name).toList
  | .neg e => do
    let text := '-' :: grouped 4 false e (← print rename false e)
    return if whole then text else parenthesized text
  | .binary op left right => do
    let l ← print rename false left
    let r ← print rename false right
    return grouped op.precedence false left l ++ op.symbol :: grouped op.precedence true right r
  | .call function arguments => do
    let texts ← printAll rename arguments
    return function.toList ++ parenthesized (commaSeparated texts)

def printAll (rename : String → String) :
    List (Expr ν) → Except (Unprintable ν) (List (List Char))
  | [] => .ok []
  | e :: es => do
    let text ← print rename true e
    let texts ← printAll rename es
    return text :: texts

end

def renderRenamed (rename : String → String) (e : Expr ν) : Except (Unprintable ν) String :=
  String.ofList <$> print rename true e

def render (e : Expr ν) : Except (Unprintable ν) String := renderRenamed id e

end Expr

end OverlayMotion
