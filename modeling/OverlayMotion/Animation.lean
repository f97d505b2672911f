import OverlayMotion.Journal
/-! Animations: an optional entry, a hold, an optional exit. A phase or an animation is
accepted when no rule refuses it; the rules are tried in a fixed order and the first
that refuses is the one reported. -/
namespace OverlayMotion

structure Phase (ν : Type) where
  effect : Effect
  duration : ν
  easing : Option Easing
  zoomFrom : ν
  zoomTo : ν
  overshoot : Option ν

structure Animation (ν : Type) where
  entry : Option (Phase ν)
  hold : ν
  exit : Option (Phase ν)

variable {ν : Type} [Number ν]

def firstRejection (rules : List (Bool × Rejection ν)) : Option (Rejection ν) :=
  (rules.find? Prod.fst).map Prod.snd

def Effect.read (given : String) : Except (Rejection ν) Effect :=
  match ofName? given with
  | .some e => .ok e
  | .none => .error (.unknownEffect given)

def Easing.resolve {ε : Type} (fallback : Easing) (given : String) : Logged ν ε Easing :=
  match ofName? given with
  | some e => pure e
  | none => do
    Logged.note (.unknownEasing given fallback)
    return fallback

def accept {ε : Type} (rejection? : Option ε) : Except ε Unit :=
  match rejection? with
  | some r => .error r
  | none => .ok ()

namespace Phase

def defaultZoomFrom : ν := Number.ofDecimal 2 (-1)
def defaultZoomTo : ν := Number.ofDecimal 1 0

def isDegenerate (p : Phase ν) : Bool := Number.isZero p.duration || p.effect == .none

def durationRejection? (duration : ν) : Option (Rejection ν) :=
  if Number.isNegative duration then some (.negativeDuration "duration" duration) else none

def zoomRejection? (p : Phase ν) : Option (Rejection ν) :=
  let peakRules := match p.overshoot with
    | some peak => [(Number.le peak p.zoomTo, Rejection.overshootTooSmall p.zoomTo peak)]
    | none => []
  firstRejection ([
    (Number.isNonPositive p.zoomFrom, .zoomNotPositive "zoom_from" p.zoomFrom),
    (Number.isNonPositive p.zoomTo, .zoomNotPositive "zoom_to" p.zoomTo)] ++ peakRules)

def rejection? (p : Phase ν) : Option (Rejection ν) :=
  (durationRejection? p.duration).or p.zoomRejection?

def make (effect : Effect) (duration : ν) (easing : Option String) (zoomFrom zoomTo : ν)
    (overshoot : Option ν) : Logged ν (Rejection ν) (Phase ν) := do
  accept (durationRejection? duration)
  let easing ← easing.mapM (Easing.resolve .linear)
  let phase : Phase ν := ⟨effect, duration, easing, zoomFrom, zoomTo, overshoot⟩
  accept phase.zoomRejection?
  return phase

end Phase

namespace Animation

def inDuration (a : Animation ν) : ν :=
  match a.entry with
  | some p => p.duration
  | none => Number.ofDecimal 0 0

def outDuration (a : Animation ν) : ν :=
  match a.exit with
  | some p => p.duration
  | none => Number.ofDecimal 0 0

def rejection? (a : Animation ν) : Option (Rejection ν) :=
  if Number.isNegative a.hold then some (.negativeDuration "hold" a.hold)
  else match a.exit.bind Phase.overshoot with
    | some peak => some (.exitOvershoot peak)
    | none => none

def make (entry : Option (Phase ν)) (hold : ν) (exit : Option (Phase ν)) :
    Except (Rejection ν) (Animation ν) := do
  let animation : Animation ν := ⟨entry, hold, exit⟩
  accept animation.rejection?
  return animation

end Animation

end OverlayMotion
