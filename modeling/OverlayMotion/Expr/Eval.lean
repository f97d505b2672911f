import OverlayMotion.Expr
/-! The value of an expression in a scope. The conditional computes one branch only;
every other function computes all its arguments, left to right, before it looks at
how many there are. -/
namespace OverlayMotion

inductive Builtin
  | lt
  | lte
  | gt
  | gte
  | eq
  | between
  | min
  | max
  | abs
  | sin
  | cos
  | sqrt
  | pow
  | clip
  | floor
  | ceil
  | trunc
  deriving DecidableEq, Repr

namespace Builtin

def ofName? : String → Option Builtin
  | "lt" => some .lt
  | "lte" => some .lte
  | "gt" => some .gt
  | "gte" => some .gte
  | "eq" => some .eq
  | "between" => some .between
  | "min" => some .min
  | "max" => some .max
  | "abs" => some .abs
  | "sin" => some .sin
  | "cos" => some .cos
  | "sqrt" => some .sqrt
  | "pow" => some .pow
  | "clip" => some .clip
  | "floor" => some .floor
  | "ceil" => some .ceil
  | "trunc" => some .trunc
  | _ => none

variable {ν : Type} [Number ν]

private def total (result : Except Fault ν) : Except (Expr.Failure ν) ν :=
  result.mapError .fault

def apply : Builtin → List ν → Except (Expr.Failure ν) ν
  | .lt, [a, b] => .ok (Number.ofBool (Number.lt a b))
  | .lte, [a, b] => .ok (Number.ofBool (Number.le a b))
  | .gt, [a, b] => .ok (Number.ofBool (Number.lt b a))
  | .gte, [a, b] => .ok (Number.ofBool (Number.le b a))
  | .eq, [a, b] => .ok (Number.ofBool (Number.eq a b))
  | .between, [x, low, high] => .ok (Number.ofBool (Number.isBetween x low high))
  | .min, a :: b :: rest => .ok ((b :: rest).foldl Number.min a)
  | .max, a :: b :: rest => .ok ((b :: rest).foldl Number.max a)
  | .abs, [a] => .ok (Number.abs a)
  | .sin, [a] => total (Number.sin a)
  | .cos, [a] => total (Number.cos a)
  | .sqrt, [a] => total (Number.sqrt a)
  | .pow, [a, b] => Expr.power a b
  | .clip, [x, low, high] => .ok (Number.min (Number.max x low) high)
  | .floor, [a] => total (Number.floor a)
  | .ceil, [a] => total (Number.ceil a)
  | .trunc, [a] => total (Number.trunc a)
  | _, _ => .error .wrongArity

end Builtin

variable {ν : Type} [Number ν]

def Operator.apply : Operator → ν → ν → Except (Expr.Failure ν) ν
  | .add, a, b => (Number.add a b).mapError .fault
  | .sub, a, b => (Number.sub a b).mapError .fault
  | .mul, a, b => (Number.mul a b).mapError .fault
  | .div, a, b => (Number.div a b).mapError .fault
  | .pow, a, b => Expr.power a b

namespace Expr

abbrev Scope (ν : Type) := String → Option ν

def Scope.extend (outer : Scope ν) (bindings : List (String × ν)) : Scope ν := fun name =>
  match bindings.reverse.lookup name with
  | some v => some v
  | none => outer name

def Scope.constants : Scope ν
  | "PI" => some (Number.ofDecimal 3141592653589793 (-15))
  | "E" => some (Number.ofDecimal 2718281828459045 (-15))
  | "PHI" => some (Number.ofDecimal 1618033988749895 (-15))
  | _ => none

mutual

def eval (scope : Scope ν) : Expr ν → Except (Failure ν) ν
  | .const v => .ok v
  | .var name => match scope name with
    | some v => .ok v
    | none => .error (.unbound name)
  | .neg e => Number.neg <$> eval scope e
  | .binary op left right => do
    let a ← eval scope left
    let b ← eval scope right
    op.apply a b
  | .call name arguments =>
    if name = "if" then
      match arguments with
      | [test, yes, no] => do
        let v ← eval scope test
        if Number.isZero v then eval scope no else eval scope yes
      | _ => .error (.conditionalArity arguments.length)
    else
      match Builtin.ofName? name with
      | some f => do f.apply (← evalAll scope arguments)
      | none => .error (.unknownFunction name)

def evalAll (scope : Scope ν) : List (Expr ν) → Except (Failure ν) (List ν)
  | [] => .ok []
  | e :: es => do
    let v ← eval scope e
    let vs ← evalAll scope es
    return v :: vs

end

theorem evalOfInt (scope : Scope ν) (n : Int) : eval scope (ofInt n) = .ok (Number.ofInt n) := by
  rw [ofInt, eval]

theorem evalTime {scope : Scope ν} {now : ν} (timed : scope "t" = some now) :
    eval scope time = .ok now := by
  rw [time, eval, timed]

theorem evalAllEach (scope : Scope ν) (es : List (Expr ν)) :
    evalAll scope es = es.mapM (eval scope) := by
  induction es with
  | nil => rfl
  | cons e es ih => rw [evalAll, List.mapM_cons, ih]

end Expr

end OverlayMotion
