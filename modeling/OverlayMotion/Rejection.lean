import OverlayMotion.Choice
import OverlayMotion.Number.Scalar
import OverlayMotion.Text.Spelling
/-! Why a descriptor of an overlay, its animation or another part of a video is
refused. Values are never adjusted; the caller has to give better ones. -/
namespace OverlayMotion

inductive Rejection (ν : Type) where
  | unknownEffect (given : String)
  | negativeDuration (field : String) (value : ν)
  | zoomNotPositive (field : String) (value : ν)
  | overshootTooSmall (target value : ν)
  | exitOvershoot (value : ν)
  | negativeStart (value : ν)
  | endBeforeStart (start value : ν)
  | widthNotPositive (value : Int)
  | unknownFit (given : String)
  | widthAndBox (box : List Int)
  | boxNotPositive (box : List Int)
  | fontSizeNotPositive (value : ν)
  | negativeIdleSpeed (value : ν)
  | negativeFade (field : String) (value : ν)
  | stillNotPositive (value : ν)
  | fadeLongerThanStill (duration value : ν)

namespace Rejection

def field {ν : Type} : Rejection ν → String
  | unknownEffect _ => "kind"
  | negativeDuration field _ => field
  | zoomNotPositive field _ => field
  | overshootTooSmall _ _ => "overshoot"
  | exitOvershoot _ => "out.overshoot"
  | negativeStart _ => "start"
  | endBeforeStart _ _ => "end"
  | widthNotPositive _ => "width"
  | unknownFit _ => "fit"
  | widthAndBox _ => "box"
  | boxNotPositive _ => "box"
  | fontSizeNotPositive _ => "font_size"
  | negativeIdleSpeed _ => "idle.speed"
  | negativeFade field _ => field
  | stillNotPositive _ => "duration"
  | fadeLongerThanStill _ _ => "fade_in"

def commaList (names : List String) : String := ", ".intercalate names

def sidesText : List Int → String
  | [n] => s!"({n},)"
  | ns => "(" ++ commaList (ns.map toString) ++ ")"

def complaint : Rejection Scalar → String
  | unknownEffect _ =>
    s!"Unknown motion kind (expected one of: {commaList (Effect.all.map Effect.name)})"
  | negativeDuration _ _ => "Duration must not be negative"
  | zoomNotPositive _ _ => "Zoom factor must be positive"
  | overshootTooSmall target _ =>
    s!"Overshoot must be greater than the target zoom ({target.plain})"
  | exitOvershoot _ => "Overshoot is only supported on the entry phase"
  | negativeStart _ => "Start time must not be negative"
  | endBeforeStart start _ => s!"End time must not be before start ({start.plain})"
  | widthNotPositive _ => "Image width must be positive"
  | unknownFit _ => s!"Unknown fit (expected one of: {commaList (Fit.all.map Fit.name)})"
  | widthAndBox _ => "Give either width or box, not both"
  | boxNotPositive _ => "Box must be a positive (width, height) pair"
  | fontSizeNotPositive _ => "Font size must be positive"
  | negativeIdleSpeed _ => "Idle speed must not be negative"
  | negativeFade _ _ => "Fade duration must not be negative"
  | stillNotPositive _ => "Still duration must be positive"
  | fadeLongerThanStill duration _ =>
    s!"Fade-in must not be longer than the still ({duration.plain}s)"

def shownValue : Rejection Scalar → String
  | unknownEffect given => Text.quoted given
  | unknownFit given => Text.quoted given
  | negativeDuration _ v | zoomNotPositive _ v | overshootTooSmall _ v | exitOvershoot v
  | negativeStart v | endBeforeStart _ v | fontSizeNotPositive v | negativeIdleSpeed v
  | negativeFade _ v | stillNotPositive v | fadeLongerThanStill _ v => v.plain
  | widthNotPositive n => toString n
  | widthAndBox box | boxNotPositive box => sidesText box

def message (r : Rejection Scalar) : String :=
  s!"{r.complaint} | Field: {r.field} | Value: {r.shownValue}"

end Rejection

end OverlayMotion
