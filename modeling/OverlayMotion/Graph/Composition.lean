import OverlayMotion.Graph
import OverlayMotion.Motion
/-! The filter graph of a video. Overlays are laid one on another in list order, each
step reading the stream that the one before it wrote:

    [0:v] → image 0 → [v0] → caption 1 → [v1] → ... → scale → [vout]

Images are looped inputs of their own. The picture's fades apply to the whole
composite, and a closing still is joined on after it. -/
namespace OverlayMotion.Graph

variable {ν : Type} [Number ν]

abbrev Composing (ν : Type) := Logged ν (Expr.Error ν)

def pixelNames (name : String) : String := if name = "t" then "T" else name

def boxFilters (box : Int × Int) : Fit → List Filter
  | .contain => [⟨"scale", [placed (toString box.1), placed (toString box.2),
      named "force_original_aspect_ratio" "decrease"]⟩]
  | .cover => [⟨"scale", [placed (toString box.1), placed (toString box.2),
      named "force_original_aspect_ratio" "increase"]⟩,
      ⟨"crop", [placed (toString box.1), placed (toString box.2)]⟩]

def fitFilters (i : Image ν) : List Filter :=
  match i.box with
  | some box => boxFilters box i.fit
  | none => []

def zoomBase (width : Option Int) : ν := Number.ofInt (width.getD 1)

def frameWidth? (i : Image ν) : Except (Expr.Failure ν) (Option (Expr ν)) := do
  let size ← zoomSize? i.placement.start i.placement.animation (zoomBase i.width)
  size.mapM fun size =>
    if i.width.isSome then .ok size else Expr.ofFault ((Expr.var "iw").mul size)

def scaleFilters (i : Image ν) : Except (Expr.Error ν) (List Filter) := do
  match ← Expr.ofTrees (frameWidth? i) with
  | some width =>
    return [⟨"scale", [quotedAs "w" (← width.text), named "h" "-1", named "eval" "frame"]⟩]
  | none => match i.width with
    | some width => return [⟨"scale", [placed (toString width), placed "-1"]⟩]
    | none => return []

def alphaFilters (alpha : Option (Expr ν)) : Except (Expr.Error ν) (List Filter) :=
  match alpha with
  | none => .ok []
  | some alpha => do
    let factor ← alpha.textRenamed pixelNames
    return [⟨"geq", [quotedAs "r" "r(X,Y)", quotedAs "g" "g(X,Y)", quotedAs "b" "b(X,Y)",
      quotedAs "a" ("alpha(X,Y)*(" ++ factor ++ ")")]⟩]

def imageChains (i : Image ν) (source base prepared output : String) :
    Composing ν (List Chain) := do
  let scale ← scaleFilters i
  let motion ← Motion.ofPlacement i.placement false
  let alpha ← alphaFilters motion.alpha
  let x ← motion.x.text
  let y ← motion.y.text
  let enable ← motion.enable.text
  return [
    ⟨[source], fitFilters i ++ scale ++ ⟨"format", [placed "rgba"]⟩ :: alpha, prepared⟩,
    ⟨[base, prepared], [⟨"overlay", [quotedAs "x" x, quotedAs "y" y, quotedAs "enable" enable,
      named "shortest" "1"]⟩], output⟩]

def fontSizeArgument (c : Caption ν) : Except (Expr.Error ν) Argument := do
  match ← Expr.ofTrees (zoomSize? c.placement.start c.placement.animation c.fontSize) with
  | some size => return quotedAs "fontsize" (← size.text)
  | none => return named "fontsize" (← Expr.numberText c.fontSize)

def captionChain (c : Caption ν) (base output : String) : Composing ν Chain := do
  let motion ← Motion.ofPlacement c.placement true
  let floating ← Expr.ofTrees (floated c.placement.start motion.y c.idle)
  let fontSize ← fontSizeArgument c
  let x ← motion.x.text
  let y ← floating.text
  let alpha ← motion.alpha.mapM fun e => Logged.ofExcept e.text
  let enable ← motion.enable.text
  let font := match c.fontFile with
    | some file => [quotedAs "fontfile" (escapePath file)]
    | none => []
  let fading := match alpha with
    | some alpha => [quotedAs "alpha" alpha]
    | none => []
  return ⟨[base], [⟨"drawtext", [quotedAs "text" (escapeText c.text), fontSize,
    named "fontcolor" c.fontColor, quotedAs "x" x, quotedAs "y" y] ++ font ++ fading ++
    [quotedAs "enable" enable]⟩], output⟩

structure Stage where
  label : String
  chains : List Chain
  nextInput : Nat
  step : Nat

def Stage.first : Stage := ⟨"0:v", [], 1, 0⟩

def compose (stage : Stage) (overlay : Overlay ν) : Composing ν Stage := do
  let output := s!"v{stage.step}"
  match overlay with
  | .image i =>
    let chains ← imageChains i s!"{stage.nextInput}:v" stage.label s!"img{stage.step}" output
    Logged.note (.imageComposed stage.step i.path.name)
    return ⟨output, stage.chains ++ chains, stage.nextInput + 1, stage.step + 1⟩
  | .caption c =>
    Logged.note (.textComposed stage.step c.text)
    let chain ← captionChain c stage.label output
    return ⟨output, stage.chains ++ [chain], stage.nextInput, stage.step + 1⟩

def fadeOutStart (duration fade : ν) : Except Fault ν :=
  return Number.max (← Number.sub duration fade) Number.zero

def fadeInFilters (filter : String) (length : ν) : Except (Expr.Error ν) (List Filter) :=
  if Number.isPositive length then do
    return [⟨filter, [named "t" "in", named "st" "0", named "d" (← Expr.numberText length)]⟩]
  else .ok []

def fadeOutFilter (filter : String) (length duration : ν) : Except (Expr.Error ν) Filter := do
  let start ← Expr.ofNumbers (fadeOutStart duration length)
  let st ← Expr.numberText start
  return ⟨filter, [named "t" "out", named "st" st, named "d" (← Expr.numberText length)]⟩

def fadeFilters (filter : String) (fadeIn fadeOut : ν) (duration : Option ν)
    (skipped : Notice ν) : Composing ν (List Filter) := do
  let entering ← fadeInFilters filter fadeIn
  if Number.isPositive fadeOut then
    match duration with
    | none =>
      Logged.note skipped
      return entering
    | some duration => return entering ++ [← fadeOutFilter filter fadeOut duration]
  else return entering

def effectiveRate (fps : Option Int) : Option Int := fps.filter (· ≠ 0)

def joinFilters (fps : Option Int) : List Filter :=
  let rate := match effectiveRate fps with
    | some fps => [⟨"fps", [placed (toString fps)]⟩]
    | none => []
  ⟨"setsar", [placed "1"]⟩ :: rate ++ [⟨"format", [placed "yuv420p"]⟩]

def stillInput (s : Still ν) (fps : Option Int) : Except (Expr.Error ν) MediaInput := do
  let rate := match effectiveRate fps with
    | some fps => ["-framerate", toString fps]
    | none => []
  return ⟨s.path, ["-loop", "1"] ++ rate ++ ["-t", ← Expr.numberText s.duration]⟩

def stillChain (s : Still ν) (source output : String) (size : Int × Int) (fps : Option Int) :
    Except (Expr.Error ν) Chain := do
  let width := toString size.1
  let height := toString size.2
  let fade ← fadeInFilters "fade" s.fadeIn
  return ⟨[source], [
    ⟨"scale", [⟨none, .quoted ("min(iw," ++ width ++ ")")⟩,
      ⟨none, .quoted ("min(ih," ++ height ++ ")")⟩,
      named "force_original_aspect_ratio" "decrease"]⟩,
    ⟨"pad", [placed width, placed height, placed "(ow-iw)/2", placed "(oh-ih)/2",
      named "color" s.color]⟩] ++ joinFilters fps ++ fade, output⟩

structure Composition (ν : Type) where
  base : Path
  overlays : List (Overlay ν)
  size : Int × Int
  audio : Option (Audio ν)
  duration : Option ν
  fade : Option (PictureFade ν)
  still : Option (Still ν)
  fps : Option Int

def overlayInputs (overlays : List (Overlay ν)) : List MediaInput :=
  overlays.filterMap fun
    | .image i => some ⟨i.path, ["-loop", "1"]⟩
    | .caption _ => none

def finishPicture (c : Composition ν) (label : String) (finish : List Filter) (inputs : Nat) :
    Composing ν (List Chain × List MediaInput × Option ν) :=
  match c.still with
  | none => pure ([⟨[label], finish, "vout"⟩], [], c.duration)
  | some still => do
    let input ← stillInput still c.fps
    let chain ← stillChain still s!"{inputs}:v" "still" c.size c.fps
    let total ← c.duration.mapM fun d =>
      Logged.ofExcept (Expr.ofNumbers (Number.add d still.duration))
    Logged.note (.stillPlanned still.path.name still.duration)
    return ([⟨[label], finish ++ joinFilters c.fps, "main"⟩, chain,
      ⟨["main", "still"], [⟨"concat", [named "n" "2", named "v" "1", named "a" "0"]⟩], "vout"⟩],
      [input], total)

def finishAudio (audio : Audio ν) (index : Nat) (total : Option ν) :
    Composing ν (List Chain × String) := do
  let source := s!"{index}:a"
  match ← fadeFilters "afade" audio.fadeIn audio.fadeOut total .audioFadeSkipped with
  | [] => return ([], source)
  | filters => return ([⟨[source], filters, "aout"⟩], bracketed "aout")

def pictureFades (c : Composition ν) : Composing ν (List Filter) :=
  match c.fade with
  | some fade => fadeFilters "fade" fade.fadeIn fade.fadeOut c.duration .videoFadeSkipped
  | none => pure []

def finishSound (audio : Option (Audio ν)) (index : Nat) (total : Option ν) :
    Composing ν (List Chain × List MediaInput × Option String) :=
  match audio with
  | none => pure ([], [], none)
  | some audio => do
    let (chains, label) ← finishAudio audio index total
    return (chains, [⟨audio.path, []⟩], some label)

def plan (c : Composition ν) : Composing ν Plan := do
  let stage ← c.overlays.foldlM compose Stage.first
  let fades ← pictureFades c
  let finish := fades ++ [⟨"scale", [placed (toString c.size.1), placed (toString c.size.2)]⟩]
  let inputs := ⟨c.base, []⟩ :: overlayInputs c.overlays
  let (chains, stillInputs, total) ← finishPicture c stage.label finish inputs.length
  let inputs := inputs ++ stillInputs
  let (audioChains, audioInputs, audioLabel) ← finishSound c.audio inputs.length total
  let inputs := inputs ++ audioInputs
  Logged.note (.planned c.overlays.length inputs.length)
  return ⟨inputs, stage.chains ++ chains ++ audioChains, bracketed "vout", audioLabel⟩

end OverlayMotion.Graph
