import OverlayMotion.Expr.Eval
import OverlayMotion.Expr.Parser
import OverlayMotion.Expr.Printer
import OverlayMotion.Number.Scalar
import OverlayMotion.Text.Spelling
/-! Formulas as callers see them: text read into trees, trees evaluated to doubles, every way
either can fail together with its wording, and what a builder may be given in place of a tree:
a number, a truth value, formula text, or nothing at all. -/
namespace OverlayMotion.Expr

inductive Error (ν : Type) where
  | malformed (reason : Malformed) (source : String)
  | missing
  | notFinite (value : ν)
  | powerNotReal (base exponent : ν)
  | unbound (name : String)
  | unknownFunction (name : String)
  | divisionByZero (formula : String)
  | undefined (formula : String) (reason : Fault)
  | conditionalArity (formula : String) (given : Nat)
  | wrongArity
  | fault (f : Fault)

section

variable {ν : Type} [Number ν]

def Unprintable.toError : Unprintable ν → Error ν
  | .notFinite v => .notFinite v
  | .fault f => .fault f

def Failure.toError : Failure ν → Error ν
  | .fault f => .fault f
  | .powerNotReal base exponent => .powerNotReal base exponent
  | .unbound name => .unbound name
  | .unknownFunction name => .unknownFunction name
  | .wrongArity => .wrongArity
  | .conditionalArity given => .conditionalArity "" given

def ofNumbers {α : Type} (r : Except Fault α) : Except (Error ν) α := r.mapError .fault

def ofTrees {α : Type} (r : Except (Failure ν) α) : Except (Error ν) α :=
  r.mapError Failure.toError

def Failure.explain (e : Expr ν) (failure : Failure ν) : Error ν :=
  let shown (error : String → Error ν) : Error ν :=
    match render e with
    | .ok text => error text
    | .error u => u.toError
  match failure with
  | .fault .divisionByZero => shown .divisionByZero
  | .fault f => shown (.undefined · f)
  | .conditionalArity given => shown (.conditionalArity · given)
  | other => other.toError

def read (source : String) : Except (Error ν) (Expr ν) :=
  (parse source).mapError (.malformed · source)

def text (e : Expr ν) : Except (Error ν) String := (render e).mapError Unprintable.toError

def textRenamed (rename : String → String) (e : Expr ν) : Except (Error ν) String :=
  (renderRenamed rename e).mapError Unprintable.toError

def numberText (v : ν) : Except (Error ν) String :=
  (String.ofList <$> numeralText v).mapError Unprintable.toError

end

def evaluate (bindings : List (String × Scalar)) (e : Expr Scalar) : Except (Error Scalar) Float :=
  let value : Except (Failure Scalar) Float := do
    let v ← eval (Scope.constants.extend bindings) e
    v.toFloat.mapError .fault
  value.mapError (Failure.explain e)

def malformedMessage (source : String) : Malformed → String
  | .character position => s!"Invalid character at {position} in expression: {source}"
  | .empty => "Empty expression"
  | .expected (some c) => s!"Expected '{c}' in expression: {source}"
  | .expected none => s!"Expected a token in expression: {source}"
  | .unexpected token =>
    s!"Unexpected {Text.quoted (String.ofList token)} in expression: {source}"

def Error.message : Error Scalar → String
  | .malformed reason source => malformedMessage source reason
  | .missing => "Cannot build an expression from None"
  | .notFinite v => "Cannot serialize non-finite number: " ++ v.plain
  | .powerNotReal base exponent =>
    "Power has no real value: (" ++ base.general ++ ")^" ++ exponent.general
  | .unbound name => "Unbound variable: " ++ name
  | .unknownFunction name => "Unknown function: " ++ name
  | .divisionByZero formula => "Division by zero in expression: " ++ formula
  | .undefined formula reason => s!"Cannot evaluate {formula}: {reason.message}"
  | .conditionalArity formula given =>
    if given < 3 then
      s!"Cannot evaluate {formula}: not enough values to unpack (expected 3, got {given})"
    else s!"Cannot evaluate {formula}: too many values to unpack (expected 3)"
  | .wrongArity => "wrong number of arguments"
  | .fault f => f.message

end OverlayMotion.Expr

namespace OverlayMotion

inductive Operand (ν : Type) where
  | tree (e : Expr ν)
  | number (v : ν)
  | flag (b : Bool)
  | formula (source : String)
  | missing

variable {ν : Type} [Number ν]

def Operand.toExpr : Operand ν → Except (Expr.Error ν) (Expr ν)
  | tree e => .ok e
  | number v => .ok (.const v)
  | flag b => .ok (.ofInt (if b then 1 else 0))
  | formula source => Expr.read source
  | missing => .error .missing

end OverlayMotion
