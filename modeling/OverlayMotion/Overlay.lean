import OverlayMotion.Animation
import OverlayMotion.Path
/-! What a video is made of besides its base: images and captions laid over it, a music
track, fades of the picture, and a closing still. -/
namespace OverlayMotion

inductive Coordinate (ν : Type) where
  | number (value : ν)
  | formula (source : String)

structure Placement (ν : Type) where
  start : ν
  finish : ν
  x : Option (Coordinate ν)
  y : Option (Coordinate ν)
  animation : Option (Animation ν)

structure Idle (ν : Type) where
  amplitude : ν
  speed : ν

structure Image (ν : Type) where
  path : Path
  placement : Placement ν
  width : Option Int
  box : Option (Int × Int)
  fit : Fit

structure Caption (ν : Type) where
  text : String
  placement : Placement ν
  fontSize : ν
  fontFile : Option Path
  fontColor : String
  idle : Option (Idle ν)

inductive Overlay (ν : Type) where
  | image (i : Image ν)
  | caption (c : Caption ν)

structure Audio (ν : Type) where
  path : Path
  fadeIn : ν
  fadeOut : ν

structure PictureFade (ν : Type) where
  fadeIn : ν
  fadeOut : ν

structure Still (ν : Type) where
  path : Path
  duration : ν
  fadeIn : ν
  color : String

variable {ν : Type} [Number ν]

def Placement.rejection? (p : Placement ν) : Option (Rejection ν) :=
  firstRejection [
    (Number.isNegative p.start, .negativeStart p.start),
    (Number.lt p.finish p.start, .endBeforeStart p.start p.finish)]

namespace Idle

def defaultAmplitude : ν := Number.ofDecimal 0 0
def defaultSpeed : ν := Number.ofDecimal 1 0

def rejection? (i : Idle ν) : Option (Rejection ν) :=
  if Number.isNegative i.speed then some (.negativeIdleSpeed i.speed) else none

def make (amplitude speed : ν) : Except (Rejection ν) (Idle ν) := do
  let idle : Idle ν := ⟨amplitude, speed⟩
  accept idle.rejection?
  return idle

end Idle

namespace Image

def readBox (width : Option Int) (sides : List Int) : Except (Rejection ν) (Int × Int) :=
  if width.isSome then .error (.widthAndBox sides)
  else match sides with
    | [w, h] => if 0 < w ∧ 0 < h then .ok (w, h) else .error (.boxNotPositive sides)
    | _ => .error (.boxNotPositive sides)

def make (path : Path) (placement : Placement ν) (width : Option Int) (box : Option (List Int))
    (fit : String) : Except (Rejection ν) (Image ν) := do
  accept placement.rejection?
  accept (width.bind fun w => if w ≤ 0 then some (.widthNotPositive w) else none)
  match Fit.ofName? fit with
  | none => .error (.unknownFit fit)
  | some fit => return ⟨path, placement, width, ← box.mapM (readBox width), fit⟩

end Image

namespace Caption

def defaultFontSize : ν := Number.ofDecimal 60 0
def defaultFontColor : String := "white"

def make (text : String) (placement : Placement ν) (fontSize : ν) (fontFile : Option Path)
    (fontColor : String) (idle : Option (Idle ν)) : Except (Rejection ν) (Caption ν) := do
  accept placement.rejection?
  accept (if Number.isNonPositive fontSize then some (.fontSizeNotPositive fontSize) else none)
  return ⟨text, placement, fontSize, fontFile, fontColor, idle⟩

end Caption

namespace Overlay

def placement : Overlay ν → Placement ν
  | image i => i.placement
  | caption c => c.placement

def isCaption : Overlay ν → Bool
  | image _ => false
  | caption _ => true

def shortLabel : Overlay ν → String
  | image i => i.path.name
  | caption c => c.text

def label (o : Overlay Scalar) : String :=
  let window := s!"[{o.placement.start.plain}, {o.placement.finish.plain}]"
  match o with
  | image i => s!"image {i.path.name} {window}"
  | caption c => s!"text {Text.quoted c.text} {window}"

end Overlay

def fadeRule (field : String) (length : ν) : Bool × Rejection ν :=
  (Number.isNegative length, .negativeFade field length)

def Audio.make (path : Path) (fadeIn fadeOut : ν) : Except (Rejection ν) (Audio ν) := do
  accept (firstRejection [fadeRule "fade_in" fadeIn, fadeRule "fade_out" fadeOut])
  return ⟨path, fadeIn, fadeOut⟩

def PictureFade.make (fadeIn fadeOut : ν) : Except (Rejection ν) (PictureFade ν) := do
  accept (firstRejection [fadeRule "fade_in" fadeIn, fadeRule "fade_out" fadeOut])
  return ⟨fadeIn, fadeOut⟩

namespace Still

def defaultFadeIn : ν := Number.ofDecimal 1 0
def defaultColor : String := "black"

def make (path : Path) (duration fadeIn : ν) (color : String) :
    Except (Rejection ν) (Still ν) := do
  accept (firstRejection [
    (Number.isNonPositive duration, .stillNotPositive duration),
    fadeRule "fade_in" fadeIn,
    (Number.lt duration fadeIn, .fadeLongerThanStill duration fadeIn)])
  return ⟨path, duration, fadeIn, color⟩

end Still

end OverlayMotion
