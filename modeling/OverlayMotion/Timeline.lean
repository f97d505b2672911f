import OverlayMotion.Overlay
/-! The times at which an overlay's phases meet, and the expressions that compare the
frame time with them. Which phase a frame is in is decided by those comparisons alone:

    t < inEnd             entering
    inEnd ≤ t < holdEnd   holding
    holdEnd ≤ t           exiting -/
namespace OverlayMotion

structure Timeline (ν : Type) where
  start : ν
  inEnd : ν
  holdEnd : ν
  outEnd : ν
  clampedEnd : ν
  entry : Option (Phase ν)
  exit : Option (Phase ν)

variable {ν : Type} [Number ν]

def Phase.visible? (p : Option (Phase ν)) : Option (Phase ν) :=
  p.filter fun p => !p.isDegenerate

namespace Timeline

def build (start : ν) (finish : Option ν) (animation : Option (Animation ν)) :
    Except Fault (Timeline ν) :=
  match animation with
  | none =>
    let stop := finish.getD start
    .ok ⟨start, start, stop, stop, stop, none, none⟩
  | some a => do
    let inEnd ← Number.add start a.inDuration
    let holdEnd ← Number.add inEnd a.hold
    let outEnd ← Number.add holdEnd a.outDuration
    let clampedEnd := match finish with
      | some finish => Number.min outEnd finish
      | none => outEnd
    return ⟨start, inEnd, holdEnd, outEnd, clampedEnd, Phase.visible? a.entry,
      Phase.visible? a.exit⟩

def notices (t : Timeline ν) (finish : Option ν) (animation : Option (Animation ν)) :
    List (Notice ν) :=
  match animation, finish with
  | some _, some finish =>
    if Number.lt t.outEnd finish then [.windowShortened t.start finish t.outEnd] else []
  | _, _ => []

def observed (start : ν) (finish : Option ν) (animation : Option (Animation ν)) :
    Logged ν Fault (Timeline ν) := do
  let t ← build start finish animation
  ⟨t.notices finish animation, .ok t⟩

def ofPlacement (p : Placement ν) : Logged ν Fault (Timeline ν) :=
  observed p.start (some p.finish) p.animation

def progress (start duration : ν) : Except Fault (Expr ν) :=
  if Number.isNonPositive duration then .ok (.ofInt 1)
  else do
    let elapsed ← Expr.time.sub (.const start)
    let share ← elapsed.div (.const duration)
    return share.clamp (.ofInt 0) (.ofInt 1)

def inProgress (t : Timeline ν) : Except Fault (Expr ν) := do
  progress t.start (← Number.sub t.inEnd t.start)

def outProgress (t : Timeline ν) : Except Fault (Expr ν) := do
  progress t.holdEnd (← Number.sub t.outEnd t.holdEnd)

def enable (t : Timeline ν) : Expr ν :=
  Expr.time.between (.const t.start) (.const t.clampedEnd)

def piecewise (t : Timeline ν) (entering : Option (Expr ν)) (rest : Expr ν)
    (exiting : Option (Expr ν)) : Expr ν :=
  let after := match exiting with
    | some e => (Expr.time.lt (.const t.holdEnd)).cond rest e
    | none => rest
  match entering with
  | some e => (Expr.time.lt (.const t.inEnd)).cond e after
  | none => after

end Timeline

end OverlayMotion
