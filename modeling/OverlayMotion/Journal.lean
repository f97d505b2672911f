import OverlayMotion.Choice
import OverlayMotion.Rejection
/-! What the program reports while it works, and computations that report. A notice
carries what happened; its level, source and wording follow from that. -/
namespace OverlayMotion

inductive Level
  | trace
  | debug
  | info
  | success
  | warning
  | error
  | critical
  deriving DecidableEq, Repr

namespace Level

def all : List Level := [trace, debug, info, success, warning, error, critical]

def name : Level → String
  | trace => "TRACE"
  | debug => "DEBUG"
  | info => "INFO"
  | success => "SUCCESS"
  | warning => "WARNING"
  | error => "ERROR"
  | critical => "CRITICAL"

def severity : Level → Nat
  | trace => 5
  | debug => 10
  | info => 20
  | success => 25
  | warning => 30
  | error => 40
  | critical => 50

end Level

inductive Notice (ν : Type) where
  | unknownEasing (given : String) (used : Easing)
  | severalEffects (listed : List Effect) (used : Effect)
  | windowShortened (start finish animationEnd : ν)
  | imageComposed (step : Nat) (name : String)
  | textComposed (step : Nat) (text : String)
  | audioFadeSkipped
  | videoFadeSkipped
  | stillPlanned (name : String) (duration : ν)
  | planned (overlays inputs : Nat)
  | overlayLoaded (label : String)
  | probeFailed (reason : String)
  | renderStarted (output : String)
  | commandIssued (line : String)
  | renderFailed (reason : String)
  | commandFailed (line : String)
  | rendered (output : String)
  | settingsIgnored (path : String)
  | settingsLoaded (path : String)

namespace Notice

def level {ν : Type} : Notice ν → Level
  | planned .. | renderStarted _ | rendered _ => .info
  | severalEffects .. | audioFadeSkipped | videoFadeSkipped | probeFailed _ | settingsIgnored _ =>
    .warning
  | renderFailed _ => .error
  | _ => .debug

def source {ν : Type} : Notice ν → String
  | unknownEasing .. => "greetmotion.processing.easing"
  | severalEffects .. => "greetmotion.models"
  | windowShortened .. => "greetmotion.processing.timeline"
  | imageComposed .. | textComposed .. | audioFadeSkipped | videoFadeSkipped | stillPlanned ..
  | planned .. => "greetmotion.processing.composer"
  | renderStarted _ | commandIssued _ => "greetmotion.processing.ffmpeg"
  | overlayLoaded _ | probeFailed _ | renderFailed _ | commandFailed _ | rendered _ =>
    "greetmotion.processing.pipeline"
  | settingsIgnored _ | settingsLoaded _ => "greetmotion.config"

def step? {ν : Type} : Notice ν → Option Nat
  | imageComposed step _ | textComposed step _ => some step
  | _ => none

def quotedList (names : List String) : String :=
  "[" ++ Rejection.commaList (names.map Text.quoted) ++ "]"

def message : Notice Scalar → String
  | unknownEasing given used => s!"Unknown easing {Text.quoted given}, using {used.name}"
  | severalEffects listed used =>
    s!"Phase lists several kinds {quotedList (listed.map Effect.name)}, using {used.name}"
  | windowShortened start finish animationEnd =>
    s!"Overlay window [{start.plain}, {finish.plain}] shortened to {animationEnd.plain} " ++
      "by its animation"
  | imageComposed step name => s!"image {name} -> [v{step}]"
  | textComposed step text => s!"text {Text.quoted text} -> [v{step}]"
  | audioFadeSkipped => "Base video duration unknown, skipping audio fade-out"
  | videoFadeSkipped => "Base video duration unknown, skipping video fade-out"
  | stillPlanned name duration => s!"Closing still {name} for {duration.general}s"
  | planned overlays inputs => s!"Planned {overlays} overlays over {inputs} inputs"
  | overlayLoaded label => "Loaded " ++ label
  | probeFailed reason => "Could not probe base video duration: " ++ reason
  | renderStarted output => "Rendering " ++ output
  | commandIssued line => line
  | renderFailed reason => reason
  | commandFailed line => "Failed command: " ++ line
  | rendered output => "Rendered " ++ output
  | settingsIgnored path => "Ignoring malformed config file " ++ path
  | settingsLoaded path => "Loaded config from " ++ path

end Notice

structure Logged (ν ε α : Type) where
  notices : List (Notice ν)
  outcome : Except ε α

namespace Logged

variable {ν ε α : Type}

def ofExcept (outcome : Except ε α) : Logged ν ε α := ⟨[], outcome⟩

def note (n : Notice ν) : Logged ν ε Unit := ⟨[n], .ok ()⟩

def noteIf (test : Bool) (n : Notice ν) : Logged ν ε Unit := ⟨if test then [n] else [], .ok ()⟩

def mapError {δ : Type} (f : ε → δ) (x : Logged ν ε α) : Logged ν δ α :=
  ⟨x.notices, x.outcome.mapError f⟩

instance : Monad (Logged ν ε) where
  pure a := ⟨[], .ok a⟩
  bind x f := match x.outcome with
    | .ok a => let y := f a; ⟨x.notices ++ y.notices, y.outcome⟩
    | .error e => ⟨x.notices, .error e⟩

instance : MonadExceptOf ε (Logged ν ε) where
  throw e := ⟨[], .error e⟩
  tryCatch x handle := match x.outcome with
    | .ok _ => x
    | .error e => let y := handle e; ⟨x.notices ++ y.notices, y.outcome⟩

instance : MonadLift (Except ε) (Logged ν ε) := ⟨ofExcept⟩

end Logged

end OverlayMotion
