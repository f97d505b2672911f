import OverlayMotion.Datum.Check
import OverlayMotion.Overlay
/-! The entries of a job document, as they are written. An entry has the shape and the
types that it should have; whether its times and scales make sense is for the
descriptors to say that are built from it. -/
namespace OverlayMotion
namespace Job

def checkScalar (d : Datum) : Check Scalar := Scalar.float <$> d.checkNumber

def checkCoordinate : Datum → Check (Coordinate Scalar)
  | .text s => .ok (.formula s)
  | d => ((Coordinate.number <$> checkScalar d).within "float").orElse
      ((Coordinate.formula <$> d.checkText).within "str")

def checkNames (d : Datum) : Check (List String) :=
  (((fun name => [name]) <$> d.checkText).within "str").orElse
    ((d.checkList Datum.checkText).within "list[str]")

structure PhaseEntry where
  effects : List String
  duration : Scalar
  easing : Option String
  zoomFrom : Scalar
  zoomTo : Scalar
  overshoot : Option Scalar

structure AnimationEntry where
  entry : Option PhaseEntry
  hold : Scalar
  exit : Option PhaseEntry

structure IdleEntry where
  amplitude : Scalar
  speed : Scalar

structure ImageEntry where
  path : String
  start : Scalar
  finish : Scalar
  width : Option Int
  box : Option (Int × Int)
  fit : String
  x : Option (Coordinate Scalar)
  y : Option (Coordinate Scalar)
  animation : Option AnimationEntry

structure CaptionEntry where
  text : String
  start : Scalar
  finish : Scalar
  fontSize : Scalar
  fontFile : Option String
  fontColor : String
  x : Option (Coordinate Scalar)
  y : Option (Coordinate Scalar)
  animation : Option AnimationEntry
  idle : Option IdleEntry

structure AudioEntry where
  path : String
  fadeIn : Scalar
  fadeOut : Scalar

structure FadeEntry where
  fadeIn : Scalar
  fadeOut : Scalar

structure StillEntry where
  path : String
  duration : Scalar
  fadeIn : Scalar
  color : String

structure OutputEntry where
  width : Option Int
  height : Option Int
  fps : Option Int

def key (name : String) : Field := ⟨name, none⟩

def keys (short long : String) : Field := ⟨short, some long⟩

def nullable {α : Type} (f : Field) (check : Datum → Check α) (t : Table) : Check (Option α) :=
  f.optional none (Datum.checkOptional check) t

def textOr (default : String) (f : Field) (t : Table) : Check String :=
  f.optional default Datum.checkText t

def scalarOr (default : Scalar) (f : Field) (t : Table) : Check Scalar :=
  f.optional default checkScalar t

def noSeconds : Scalar := .float 0

def PhaseEntry.check : Datum → Check PhaseEntry :=
  Check.closedRecord "PhaseModel"
    [key "kind", key "duration", key "easing", keys "from" "zoom_from", keys "to" "zoom_to",
      key "overshoot"]
    fun t => PhaseEntry.mk <$> (key "kind").required checkNames t
      <*> (key "duration").required checkScalar t
      <*> nullable (key "easing") Datum.checkText t
      <*> scalarOr Phase.defaultZoomFrom (keys "from" "zoom_from") t
      <*> scalarOr Phase.defaultZoomTo (keys "to" "zoom_to") t
      <*> nullable (key "overshoot") checkScalar t

def AnimationEntry.check : Datum → Check AnimationEntry :=
  Check.closedRecord "AnimationModel"
    [keys "in" "in_phase", key "hold", keys "out" "out_phase"]
    fun t => AnimationEntry.mk <$> nullable (keys "in" "in_phase") PhaseEntry.check t
      <*> scalarOr noSeconds (key "hold") t
      <*> nullable (keys "out" "out_phase") PhaseEntry.check t

def IdleEntry.check : Datum → Check IdleEntry :=
  Check.closedRecord "IdleModel" [key "amplitude", key "speed"]
    fun t => IdleEntry.mk <$> (key "amplitude").required checkScalar t
      <*> scalarOr Idle.defaultSpeed (key "speed") t

def ImageEntry.check : Datum → Check ImageEntry :=
  Check.closedRecord "ImageEntry"
    [key "path", key "start", key "end", key "width", key "box", key "fit", key "x", key "y",
      key "animation"]
    fun t => ImageEntry.mk <$> (key "path").required Datum.checkText t
      <*> scalarOr noSeconds (key "start") t
      <*> (key "end").required checkScalar t
      <*> nullable (key "width") Datum.checkInteger t
      <*> nullable (key "box") (Datum.checkPair Datum.checkInteger) t
      <*> textOr Fit.cover.name (key "fit") t
      <*> nullable (key "x") checkCoordinate t
      <*> nullable (key "y") checkCoordinate t
      <*> nullable (key "animation") AnimationEntry.check t

def CaptionEntry.check : Datum → Check CaptionEntry :=
  Check.closedRecord "TextEntry"
    [key "text", key "start", key "end", key "font_size", key "font_file", key "font_color",
      key "x", key "y", key "animation", key "idle"]
    fun t => CaptionEntry.mk <$> (key "text").required Datum.checkText t
      <*> scalarOr noSeconds (key "start") t
      <*> (key "end").required checkScalar t
      <*> scalarOr Caption.defaultFontSize (key "font_size") t
      <*> nullable (key "font_file") Datum.checkText t
      <*> textOr Caption.defaultFontColor (key "font_color") t
      <*> nullable (key "x") checkCoordinate t
      <*> nullable (key "y") checkCoordinate t
      <*> nullable (key "animation") AnimationEntry.check t
      <*> nullable (key "idle") IdleEntry.check t

def AudioEntry.check : Datum → Check AudioEntry :=
  Check.closedRecord "AudioEntry" [key "path", key "fade_in", key "fade_out"]
    fun t => AudioEntry.mk <$> (key "path").required Datum.checkText t
      <*> scalarOr noSeconds (key "fade_in") t
      <*> scalarOr noSeconds (key "fade_out") t

def FadeEntry.check : Datum → Check FadeEntry :=
  Check.closedRecord "VideoEntry" [key "fade_in", key "fade_out"]
    fun t => FadeEntry.mk <$> scalarOr noSeconds (key "fade_in") t
      <*> scalarOr noSeconds (key "fade_out") t

def StillEntry.check : Datum → Check StillEntry :=
  Check.closedRecord "OutroEntry" [key "path", key "duration", key "fade_in", key "color"]
    fun t => StillEntry.mk <$> (key "path").required Datum.checkText t
      <*> (key "duration").required checkScalar t
      <*> scalarOr Still.defaultFadeIn (key "fade_in") t
      <*> textOr Still.defaultColor (key "color") t

def OutputEntry.check : Datum → Check OutputEntry :=
  Check.closedRecord "OutputSettings" [key "width", key "height", key "fps"]
    fun t => OutputEntry.mk <$> nullable (key "width") Datum.checkInteger t
      <*> nullable (key "height") Datum.checkInteger t
      <*> nullable (key "fps") Datum.checkInteger t

def chooseEffect (names : List String) : Logged Scalar (Rejection Scalar) Effect := do
  let listed ← names.mapM fun name => Logged.ofExcept (Effect.read name)
  let chosen := listed.getLastD .none
  Logged.noteIf (listed.any (· != chosen)) (.severalEffects listed chosen)
  return chosen

def PhaseEntry.toPhase (e : PhaseEntry) : Logged Scalar (Rejection Scalar) (Phase Scalar) := do
  let effect ← chooseEffect e.effects
  Phase.make effect e.duration e.easing e.zoomFrom e.zoomTo e.overshoot

def AnimationEntry.toAnimation (e : AnimationEntry) :
    Logged Scalar (Rejection Scalar) (Animation Scalar) := do
  let entry ← e.entry.mapM PhaseEntry.toPhase
  let exit ← e.exit.mapM PhaseEntry.toPhase
  Animation.make entry e.hold exit

def IdleEntry.toIdle (e : IdleEntry) : Except (Rejection Scalar) (Idle Scalar) :=
  Idle.make e.amplitude e.speed

def ImageEntry.toImage (e : ImageEntry) (path : Path) :
    Logged Scalar (Rejection Scalar) (Image Scalar) := do
  let animation ← e.animation.mapM AnimationEntry.toAnimation
  Image.make path ⟨e.start, e.finish, e.x, e.y, animation⟩ e.width
    (e.box.map fun box => [box.1, box.2]) e.fit

def CaptionEntry.toCaption (e : CaptionEntry) (text : String) (fontFile : Option Path) :
    Logged Scalar (Rejection Scalar) (Caption Scalar) := do
  let animation ← e.animation.mapM AnimationEntry.toAnimation
  let idle ← e.idle.mapM fun idle => Logged.ofExcept idle.toIdle
  Caption.make text ⟨e.start, e.finish, e.x, e.y, animation⟩ e.fontSize fontFile e.fontColor idle

end Job

end OverlayMotion
