import OverlayMotion.Expr.Operand
import OverlayMotion.Timeline
/-! Overlays compiled to expressions of the frame time: when they are drawn, where they
are, how opaque and how large. A slide acts on one axis, a fade on the opacity, a zoom
on the size, and each leaves the others alone. -/
namespace OverlayMotion

structure Symbols where
  canvasWidth : String
  canvasHeight : String
  objectWidth : String
  objectHeight : String
  shortWidth : String
  shortHeight : String
  deriving DecidableEq, Repr

def captionSymbols : Symbols := ⟨"w", "h", "text_w", "text_h", "tw", "th"⟩
def imageSymbols : Symbols := ⟨"main_w", "main_h", "overlay_w", "overlay_h", "w", "h"⟩

def symbolsFor (isCaption : Bool) : Symbols := if isCaption then captionSymbols else imageSymbols

structure Motion (ν : Type) where
  enable : Expr ν
  x : Expr ν
  y : Expr ν
  alpha : Option (Expr ν)

inductive Axis
  | horizontal
  | vertical
  deriving DecidableEq, Repr

variable {ν : Type} [Number ν]

def Coordinate.operand : Coordinate ν → Operand ν
  | .number v => .number v
  | .formula source => .formula source

namespace Symbols

def centeredX (s : Symbols) : Except Fault (Expr ν) := do
  (← (Expr.var s.canvasWidth).sub (.var s.objectWidth)).div (.ofInt 2)

def centeredY (s : Symbols) : Except Fault (Expr ν) := do
  (← (Expr.var s.canvasHeight).sub (.var s.objectHeight)).div (.ofInt 2)

def bind (s : Symbols) (canvas size : ν × ν) : List (String × ν) := [
  -- Of two values for a name the later one holds: a short name is the object's, not the canvas's.
  ("main_w", canvas.1), ("main_h", canvas.2), ("W", canvas.1), ("H", canvas.2),
  (s.canvasWidth, canvas.1), (s.canvasHeight, canvas.2),
  (s.objectWidth, size.1), (s.objectHeight, size.2),
  (s.shortWidth, size.1), (s.shortHeight, size.2)]

end Symbols

namespace Axis

def entryOffset? (s : Symbols) : Axis → Effect → Option (Expr ν)
  | horizontal, .slideLeft => some (.var s.canvasWidth)
  | horizontal, .slideRight => some (.neg (.var s.objectWidth))
  | vertical, .slideUp => some (.var s.canvasHeight)
  | vertical, .slideDown => some (.neg (.var s.objectHeight))
  | _, _ => none

def exitTarget? (s : Symbols) : Axis → Effect → Option (Expr ν)
  | horizontal, .slideLeft => some (.neg (.var s.objectWidth))
  | horizontal, .slideRight => some (.var s.canvasWidth)
  | vertical, .slideUp => some (.neg (.var s.objectHeight))
  | vertical, .slideDown => some (.var s.canvasHeight)
  | _, _ => none

end Axis

def interpolate (first share last : Expr ν) : Except Fault (Expr ν) := do
  first.add (← share.mul (← last.sub first))

namespace Timeline

def eased (progress : Except Fault (Expr ν)) (phase : Phase ν) :
    Except (Expr.Failure ν) (Expr ν) := do
  (phase.easing.getD .linear).curve (← Expr.ofFault progress)

def moving (phase : Option (Phase ν)) (progress : Except Fault (Expr ν))
    (ends? : Effect → Option (Expr ν × Expr ν)) : Except (Expr.Failure ν) (Option (Expr ν)) :=
  phase.bindM fun p => (ends? p.effect).mapM fun (first, last) => do
    Expr.ofFault (interpolate first (← eased progress p) last)

def position (t : Timeline ν) (axis : Axis) (s : Symbols) (rest : Expr ν) :
    Except (Expr.Failure ν) (Expr ν) := do
  let entering ← moving t.entry t.inProgress fun effect =>
    (axis.entryOffset? s effect).map fun offset => (offset, rest)
  let exiting ← moving t.exit t.outProgress fun effect =>
    (axis.exitTarget? s effect).map fun target => (rest, target)
  return t.piecewise entering rest exiting

def opacity? (t : Timeline ν) : Except (Expr.Failure ν) (Option (Expr ν)) := do
  let fades (p : Phase ν) : Bool := p.effect == .fade
  let entry := t.entry.filter fades
  let exit := t.exit.filter fades
  if entry.isNone && exit.isNone then return none
  else
    let entering ← entry.mapM fun p => eased t.inProgress p
    let exiting ← exit.mapM fun p => do
      Expr.ofFault ((Expr.ofInt 1).sub (← eased t.outProgress p))
    return some (t.piecewise entering (.ofInt 1) exiting)

end Timeline

namespace Motion

def compile (t : Timeline ν) (s : Symbols) (x y : Expr ν) :
    Except (Expr.Failure ν) (Motion ν) := do
  return {
    enable := t.enable
    x := ← t.position .horizontal s x
    y := ← t.position .vertical s y
    alpha := ← t.opacity? }

def restingAt (c : Option (Operand ν)) (centered : Except Fault (Expr ν)) :
    Except (Expr.Error ν) (Expr ν) :=
  match c with
  | some operand => operand.toExpr
  | none => Expr.ofNumbers centered

def ofOperands (start : ν) (finish : Option ν) (animation : Option (Animation ν))
    (x y : Option (Operand ν)) (isCaption : Bool) : Logged ν (Expr.Error ν) (Motion ν) := do
  let s := symbolsFor isCaption
  let x ← restingAt x s.centeredX
  let y ← restingAt y s.centeredY
  let t ← (Timeline.observed start finish animation).mapError .fault
  Expr.ofTrees (compile t s x y)

def ofWindow (start : ν) (finish : Option ν) (animation : Option (Animation ν))
    (x y : Option (Coordinate ν)) (isCaption : Bool) : Logged ν (Expr.Error ν) (Motion ν) :=
  ofOperands start finish animation (x.map Coordinate.operand) (y.map Coordinate.operand)
    isCaption

def ofPlacement (p : Placement ν) (isCaption : Bool) : Logged ν (Expr.Error ν) (Motion ν) :=
  ofWindow p.start (some p.finish) p.animation p.x p.y isCaption

end Motion

def riseShare : ν := Number.ofDecimal 7 (-1)

def zoomEntry (t : Timeline ν) (p : Phase ν) (base : ν) : Except (Expr.Failure ν) (Expr ν) := do
  let low ← Expr.ofFault (Number.mul p.zoomFrom base)
  let high ← Expr.ofFault (Number.mul p.zoomTo base)
  match p.overshoot with
  | none =>
    Expr.ofFault (interpolate (.const low) (← Timeline.eased t.inProgress p) (.const high))
  | some factor =>
    let peak ← Expr.ofFault (Number.mul factor base)
    let rise ← Expr.ofFault (Number.mul p.duration riseShare)
    let settle ← Expr.ofFault (Number.sub p.duration rise)
    let summit ← Expr.ofFault (Number.add t.start rise)
    let risen ← Expr.ofFault (Timeline.progress t.start rise)
    let rising ← Expr.ofFault
      (interpolate (.const low) (← (p.easing.getD .easeOut).curve risen) (.const peak))
    let settled ← Expr.ofFault (Timeline.progress summit settle)
    let settling ← Expr.ofFault (interpolate (.const peak) settled (.const high))
    return (Expr.time.lt (.const summit)).cond rising settling

def zoomSize? (start : ν) (animation : Option (Animation ν)) (base : ν) :
    Except (Expr.Failure ν) (Option (Expr ν)) := do
  let zooms (p : Phase ν) : Bool := p.effect == .zoom
  let some a := animation | return none
  let entry := a.entry.filter zooms
  let exit := a.exit.filter zooms
  let some resting := entry.or exit | return none
  let t ← Expr.ofFault (Timeline.build start none animation)
  let rest ← Expr.const <$> Expr.ofFault (Number.mul resting.zoomTo base)
  let entering ← (Phase.visible? entry).mapM fun p => zoomEntry t p base
  let exiting ← (Phase.visible? exit).mapM fun p => do
    let target ← Expr.ofFault (Number.mul p.zoomFrom base)
    Expr.ofFault (interpolate rest (← Timeline.eased t.outProgress p) (.const target))
  return some (t.piecewise entering rest exiting)

def fullTurn : Except Fault ν :=
  Number.mul (Number.ofInt 2) (Number.ofDecimal 3141592653589793 (-15))

def floated (start : ν) (y : Expr ν) (idle : Option (Idle ν)) :
    Except (Expr.Failure ν) (Expr ν) :=
  match idle with
  | none => .ok y
  | some i =>
    if Number.isZero i.amplitude || Number.isZero i.speed then .ok y
    else Expr.ofFault do
      let angular ← Number.mul (← fullTurn) i.speed
      let angle ← (Expr.const angular).mul (← Expr.time.sub (.const start))
      let wave ← (Expr.const i.amplitude).mul (← Expr.sin angle)
      y.add wave

end OverlayMotion
