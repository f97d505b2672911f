import OverlayMotion.Rendering
/-! What the overlays of a rendering will do, for inspection: the expressions of each as
text, and their values at single frame times. -/
namespace OverlayMotion

structure Preview where
  isCaption : Bool
  label : String
  start : Scalar
  finish : Scalar
  expressions : Entries String

namespace Preview

section
variable {ν : Type} [Number ν]

def sizeBase : Overlay ν → ν
  | .image i => Graph.zoomBase i.width
  | .caption c => c.fontSize

def idle? : Overlay ν → Option (Idle ν)
  | .image _ => none
  | .caption c => c.idle

def named (name : String) (e : Option (Expr ν)) : List (String × Expr ν) :=
  e.toList.map fun e => (name, e)

end

def texts (trees : List (String × Expr Scalar)) : Except (Expr.Error Scalar) (Entries String) :=
  trees.mapM fun (name, e) => do return (name, ← e.text)

def ofOverlay (o : Overlay Scalar) : Logged Scalar (Expr.Error Scalar) Preview := do
  let p := o.placement
  let motion ← Motion.ofPlacement p o.isCaption
  let y ← Expr.ofTrees (floated p.start motion.y (idle? o))
  let size ← Expr.ofTrees (zoomSize? p.start p.animation (sizeBase o))
  let t ← (Timeline.ofPlacement p).mapError .fault
  let expressions ← texts ([("enable", motion.enable), ("x", motion.x), ("y", y)] ++
    named "alpha" motion.alpha ++ named "size" size)
  return ⟨o.isCaption, o.shortLabel, p.start, t.clampedEnd, expressions⟩

def bindings (e : Encoding) (measured : Entries Float) (isCaption : Bool) (time : Float) :
    List (String × Scalar) :=
  let size (name : String) : Scalar := .float ((measured.lookup name).getD 0)
  let object := if isCaption then (size "text_w", size "text_h")
    else (size "overlay_w", size "overlay_h")
  (symbolsFor isCaption).bind (.int e.width, .int e.height) object ++ [("t", .float time)]

def sample (p : Preview) (e : Encoding) (measured : Entries Float) (time : Float) :
    Except (Expr.Error Scalar) (Entries Float) :=
  p.expressions.mapM fun (name, source) => do
    return (name, ← Expr.evaluate (bindings e measured p.isCaption time) (← Expr.read source))

end Preview

namespace Rendering

def preview (r : Rendering) : Session Failure (List Preview) :=
  (Session.ofLogged (r.overlays.mapM Preview.ofOverlay)).mapError .formula

def sample (r : Rendering) (time : Float) (measured : Entries Float) :
    Session Failure (List (Entries Float)) := do
  let previews ← r.preview
  previews.mapM fun p => Session.ofExcept (Failure.ofFormula (p.sample r.encoding measured time))

end Rendering

end OverlayMotion
