import OverlayMotion.Proofs.Loading
import OverlayMotion.Proofs.Steps

/-! What a preview shows beside what a plan draws. Both compile an overlay, each on its own, to
its motion, its height with a float on top, and its size; the texts that a preview shows are the
ones that the filters of that overlay quote, and a filter has an optional part exactly if the
preview shows its expression.

`Caption.DrawnAs` and its like look options up among the arguments that the planner writes. They
do not say what a reader of the filter's text finds: a caption's colour stands there as it was
given, unquoted behind `fontcolor=`, and one with a colon in it would bring in options of its
own. -/
namespace OverlayMotion
open OverlayMotion.Graph (Filter Chain Argument)

section
variable {ν : Type} [Number ν]

structure Compiled (ν : Type) where
  motion : Motion ν
  height : Expr ν
  size : Option (Expr ν)

def Overlay.compiled (o : Overlay ν) : Except (Expr.Error ν) (Compiled ν) := do
  let p := o.placement
  let motion ← (Motion.ofPlacement p o.isCaption).outcome
  let height ← Expr.ofTrees (floated p.start motion.y (Preview.idle? o))
  let size ← Expr.ofTrees (zoomSize? p.start p.animation (Preview.sizeBase o))
  return ⟨motion, height, size⟩

def Compiled.trees (c : Compiled ν) : List (String × Expr ν) :=
  [("enable", c.motion.enable), ("x", c.motion.x), ("y", c.height)] ++
    Preview.named "alpha" c.motion.alpha ++ Preview.named "size" c.size

theorem Overlay.compiledOk {o : Overlay ν} {c : Compiled ν} : o.compiled = .ok c ↔
    (Motion.ofPlacement o.placement o.isCaption).outcome = .ok c.motion ∧
    Expr.ofTrees (floated o.placement.start c.motion.y (Preview.idle? o)) = .ok c.height ∧
    Expr.ofTrees (zoomSize? o.placement.start o.placement.animation (Preview.sizeBase o)) =
      .ok c.size := by
  simp only [compiled, bindOk, pureIsOk]
  constructor
  · rintro ⟨motion, moved, height, raised, size, sized, same⟩
    cases same
    exact ⟨moved, raised, sized⟩
  · rintro ⟨moved, raised, sized⟩
    exact ⟨_, moved, _, raised, _, sized, rfl⟩

end

theorem Preview.madeIff {o : Overlay Scalar} {p : Preview} :
    (Preview.ofOverlay o).outcome = .ok p ↔ ∃ c t shown, o.compiled = .ok c ∧
      (Timeline.ofPlacement o.placement).outcome = .ok t ∧ texts c.trees = .ok shown ∧
      p = ⟨o.isCaption, o.shortLabel, o.placement.start, t.clampedEnd, shown⟩ := by
  simp only [ofOverlay, Logged.bindOk, Logged.liftOutcome, Logged.pureOutcome,
    Logged.mapErrorOutcome, mapErrorOk]
  constructor
  · rintro ⟨motion, moved, y, raised, size, sized, t, built, shown, written, same⟩
    exact ⟨⟨motion, y, size⟩, t, shown, Overlay.compiledOk.mpr ⟨moved, raised, sized⟩, built,
      written, (Except.ok.inj same).symm⟩
  · rintro ⟨c, t, shown, compiled, built, written, rfl⟩
    obtain ⟨moved, raised, sized⟩ := Overlay.compiledOk.mp compiled
    exact ⟨c.motion, moved, c.height, raised, c.size, sized, t, built, shown, written, rfl⟩

theorem Rendering.previewOk {r : Rendering} {h : Host} {previews : List Preview} :
    (r.preview h).1 = .ok previews ↔
      List.Forall₂ (fun o p => (Preview.ofOverlay o).outcome = .ok p) r.overlays previews := by
  rw [← eachOk, ← Logged.eachOutcome]
  exact mapErrorOk

def ShownAs (tree : Option (Expr Scalar)) (text : Option String) : Prop :=
  Option.Rel (fun e text => e.text = .ok text) tree text

theorem ShownAs.once {tree : Option (Expr Scalar)} {first second : Option String}
    (one : ShownAs tree first) (other : ShownAs tree second) : first = second := by
  cases one with
  | none =>
    cases other
    rfl
  | some written =>
    cases other with
    | some again =>
      cases written.symm.trans again
      rfl

theorem Preview.textsLookup {trees : List (String × Expr Scalar)} {shown : Entries String}
    (written : texts trees = .ok shown) (key : String) :
    ShownAs (trees.lookup key) (shown.get? key) := by
  rw [texts, eachOk] at written
  induction written with
  | nil => exact .none
  | cons first _ ih =>
    obtain ⟨text, made, same⟩ := bindOk.mp first
    cases same
    rw [Entries.get?, List.lookup_cons, List.lookup_cons]
    split
    · exact .some made
    · exact ih

namespace Compiled
variable (c : Compiled Scalar)

theorem enableTree : c.trees.lookup "enable" = some c.motion.enable := rfl

theorem xTree : c.trees.lookup "x" = some c.motion.x := rfl

theorem yTree : c.trees.lookup "y" = some c.height := rfl

theorem alphaTree : c.trees.lookup "alpha" = c.motion.alpha := by
  cases alpha : c.motion.alpha <;> cases size : c.size <;>
    simp [trees, Preview.named, alpha, size, List.lookup]

theorem sizeTree : c.trees.lookup "size" = c.size := by
  cases alpha : c.motion.alpha <;> cases size : c.size <;>
    simp [trees, Preview.named, alpha, size, List.lookup]

structure Shown (c : Compiled Scalar) (shown : Entries String) : Prop where
  enable : ShownAs (some c.motion.enable) (shown.get? "enable")
  x : ShownAs (some c.motion.x) (shown.get? "x")
  y : ShownAs (some c.height) (shown.get? "y")
  alpha : ShownAs c.motion.alpha (shown.get? "alpha")
  size : ShownAs c.size (shown.get? "size")

variable {c} in
theorem shown {shown : Entries String} (written : Preview.texts c.trees = .ok shown) :
    c.Shown shown := by
  have tree := Preview.textsLookup written
  exact ⟨c.enableTree ▸ tree "enable", c.xTree ▸ tree "x", c.yTree ▸ tree "y",
    c.alphaTree ▸ tree "alpha", c.sizeTree ▸ tree "size"⟩

end Compiled

def Quotes (f : Filter) (shown : Entries String) (key : String) : Prop :=
  (shown.get? key).isSome ∧ f.option? key = (shown.get? key).map .quoted

def LettersSized (c : Caption Scalar) (given : Graph.Value) : Option String → Prop
  | some text => given = .quoted text
  | none => ∃ text, Expr.numberText c.fontSize = .ok text ∧ given = .plain text

structure Caption.DrawnAs (c : Caption Scalar) (shown : Entries String) (f : Filter) : Prop where
  name : f.name = "drawtext"
  once : (f.arguments.map Argument.key).Nodup
  quotes : ∀ key ∈ ["x", "y", "enable"], Quotes f shown key
  alpha : f.option? "alpha" = (shown.get? "alpha").map .quoted
  sized : ∃ given, f.option? "fontsize" = some given ∧ LettersSized c given (shown.get? "size")

def isPixelwise (f : Filter) : Bool := f.name == "geq"

def isFramewise (f : Filter) : Bool :=
  f.name == "scale" && f.option? "eval" == some (.plain "frame")

def PixelsFaded (alpha : Option (Expr Scalar)) (filters : List Filter) : Option String → Prop
  | none => filters.filter isPixelwise = []
  | some text => ∃ tree ∈ alpha, ∃ factor f, tree.text = .ok text ∧
      tree.textRenamed Graph.pixelNames = .ok factor ∧ filters.filter isPixelwise = [f] ∧
      f.option? "a" = some (.quoted ("alpha(X,Y)*(" ++ factor ++ ")"))

def widened (size : Expr Scalar) : Expr Scalar :=
  if size.isZero then .ofInt 0 else if size.isOne then .var "iw" else .binary .mul (.var "iw") size

def FramesScaled (i : Image Scalar) (size : Option (Expr Scalar)) (filters : List Filter) :
    Option String → Prop
  | none => filters.filter isFramewise = []
  | some text => ∃ tree ∈ size, ∃ width f, tree.text = .ok text ∧
      (if i.width.isSome then tree else widened tree).text = .ok width ∧
      filters.filter isFramewise = [f] ∧ f.option? "w" = some (.quoted width)

structure Image.DrawnAs (i : Image Scalar) (c : Compiled Scalar) (shown : Entries String)
    (prepare : List Filter) (lay : Filter) : Prop where
  name : lay.name = "overlay"
  once : (lay.arguments.map Argument.key).Nodup
  quotes : ∀ key ∈ ["x", "y", "enable"], Quotes lay shown key
  alpha : PixelsFaded c.motion.alpha prepare (shown.get? "alpha")
  sized : FramesScaled i c.size prepare (shown.get? "size")

theorem quotesText {e : Expr Scalar} {text key : String} {f : Filter} {shown : Entries String}
    (tree : ShownAs (some e) (shown.get? key)) (written : e.text = .ok text)
    (given : f.option? key = some (.quoted text)) : Quotes f shown key := by
  have same := tree.once (.some written)
  exact ⟨by simp [same], by simp [same, given]⟩

theorem lettersShown {c : Caption Scalar} {argument : Argument} {shown : Option String}
    {size : Option (Expr Scalar)}
    (sized : Expr.ofTrees (zoomSize? c.placement.start c.placement.animation c.fontSize) = .ok size)
    (asked : Graph.fontSizeArgument c = .ok argument)
    (tree : ShownAs size shown) :
    argument.key = some "fontsize" ∧ LettersSized c argument.value shown := by
  obtain ⟨key, size', sized', value⟩ := Graph.sizeArgument asked
  cases sized.symm.trans sized'
  refine ⟨key, ?_⟩
  cases tree with
  | none => exact value
  | some written =>
    obtain ⟨text, again, same⟩ := value
    cases written.symm.trans again
    exact same

theorem Caption.drawn {c : Caption Scalar} {compiled : Compiled Scalar} {shown : Entries String}
    {base output : String} {chain : Chain} (trees : (Overlay.caption c).compiled = .ok compiled)
    (written : Preview.texts compiled.trees = .ok shown)
    (done : (Graph.captionChain c base output).outcome = .ok chain) :
    ∃ f, chain.filters = [f] ∧ c.DrawnAs shown f := by
  have shows := Compiled.shown written
  obtain ⟨moved, raised, sized⟩ := Overlay.compiledOk.mp trees
  obtain ⟨motion, height, argument, x, y, alpha, enable, moved', raised', asked, xText, yText,
    alphaText, enableText, rfl⟩ := Graph.captionChainMade done
  obtain rfl : compiled.motion = motion := Except.ok.inj (moved.symm.trans moved')
  obtain rfl : compiled.height = height := Except.ok.inj (raised.symm.trans raised')
  have alphaShown : shown.get? "alpha" = alpha := shows.alpha.once alphaText
  obtain ⟨key, letters⟩ := lettersShown sized asked shows.size
  obtain ⟨xOption, yOption, enableOption, alphaOption, sizeOption⟩ :=
    Graph.drawFilterOptions c x y alpha enable key
  refine ⟨_, rfl, ⟨rfl, Graph.drawFilterKeys c x y alpha enable key, ?_,
    alphaShown ▸ alphaOption, argument.value, sizeOption, letters⟩⟩
  simp only [List.forall_mem_cons, List.not_mem_nil, false_implies, implies_true, and_true]
  exact ⟨quotesText shows.x xText xOption, quotesText shows.y yText yOption,
    quotesText shows.enable enableText enableOption⟩

section
variable {i : Image Scalar} {filters : List Filter} {shown : Option String}

theorem fitUnmarked (i : Image Scalar) : (Graph.fitFilters i).filter isPixelwise = [] ∧
    (Graph.fitFilters i).filter isFramewise = [] := by
  unfold Graph.fitFilters
  split
  · cases i.fit <;> exact ⟨rfl, rfl⟩
  · exact ⟨rfl, rfl⟩

theorem widenedProduct {size product : Expr Scalar}
    (done : (Expr.var "iw").mul size = .ok product) : product = widened size := by
  cases done
  rfl

theorem framesShown {size : Option (Expr Scalar)}
    (sized : Expr.ofTrees (zoomSize? i.placement.start i.placement.animation
      (Graph.zoomBase i.width)) = .ok size)
    (done : Graph.scaleFilters i = .ok filters)
    (tree : ShownAs size shown) :
    filters.filter isPixelwise = [] ∧ FramesScaled i size filters shown := by
  obtain ⟨width, made, scaled⟩ := bindOk.mp done
  obtain ⟨size', zoomed, framed⟩ := bindOk.mp (mapErrorOk.mp made)
  cases (mapErrorOk.mp sized).symm.trans zoomed
  rw [optionOk] at framed
  cases tree with
  | none =>
    cases framed
    cases given : i.width with
    | none =>
      simp only [given] at scaled
      cases scaled
      exact ⟨rfl, rfl⟩
    | some w =>
      simp only [given] at scaled
      cases scaled
      exact ⟨rfl, rfl⟩
  | @some tree text shown =>
    cases framed with
    | @some _ product framed =>
      obtain ⟨wide, written, same⟩ := bindOk.mp scaled
      cases same
      have same : product = if i.width.isSome then tree else widened tree := by
        split_ifs at framed ⊢
        · exact (Except.ok.inj framed).symm
        · exact widenedProduct (mapErrorOk.mp framed)
      rw [same] at written
      exact ⟨rfl, tree, rfl, wide, _, shown, written, rfl, rfl⟩

theorem pixelsShown {alpha : Option (Expr Scalar)}
    (done : Graph.alphaFilters alpha = .ok filters)
    (tree : ShownAs alpha shown) :
    filters.filter isFramewise = [] ∧ PixelsFaded alpha filters shown := by
  cases tree with
  | none =>
    cases done
    exact ⟨rfl, rfl⟩
  | @some tree text shown =>
    obtain ⟨factor, written, same⟩ := bindOk.mp done
    cases same
    exact ⟨rfl, tree, rfl, factor, _, shown, written, rfl, rfl⟩

theorem pixelsBeside {alpha : Option (Expr Scalar)} {before : List Filter}
    (unmarked : before.filter isPixelwise = []) (faded : PixelsFaded alpha filters shown) :
    PixelsFaded alpha (before ++ filters) shown := by
  cases shown with
  | none =>
    rw [PixelsFaded, List.filter_append, unmarked, faded]
    rfl
  | some text =>
    obtain ⟨tree, given, factor, f, written, renamed, only, option⟩ := faded
    refine ⟨tree, given, factor, f, written, renamed, ?_, option⟩
    rw [List.filter_append, unmarked, only, List.nil_append]

theorem framesBeside {size : Option (Expr Scalar)} {before after : List Filter}
    (first : before.filter isFramewise = []) (last : after.filter isFramewise = [])
    (scaled : FramesScaled i size filters shown) :
    FramesScaled i size (before ++ filters ++ after) shown := by
  cases shown with
  | none =>
    rw [FramesScaled, List.filter_append, List.filter_append, first, last, scaled]
    rfl
  | some text =>
    obtain ⟨tree, given, width, f, written, wide, only, option⟩ := scaled
    refine ⟨tree, given, width, f, written, wide, ?_, option⟩
    rw [List.filter_append, List.filter_append, first, last, only, List.nil_append, List.append_nil]

end

theorem Image.drawn {i : Image Scalar} {c : Compiled Scalar} {shown : Entries String}
    {source base prepared output : String} {chains : List Chain}
    (trees : (Overlay.image i).compiled = .ok c) (written : Preview.texts c.trees = .ok shown)
    (done : (Graph.imageChains i source base prepared output).outcome = .ok chains) :
    ∃ prepare lay, chains.map Chain.filters = [prepare, [lay]] ∧ i.DrawnAs c shown prepare lay := by
  have shows := Compiled.shown written
  obtain ⟨moved, raised, sized⟩ := Overlay.compiledOk.mp trees
  -- Nothing floats on an image, so its height is that of its motion.
  have still : c.motion.y = c.height := Except.ok.inj (mapErrorOk.mp raised)
  obtain ⟨scale, motion, alpha, x, y, enable, scaled, moved', faded, xText, yText, enableText,
    rfl⟩ := Graph.imageChainsMade done
  obtain rfl : c.motion = motion := Except.ok.inj (moved.symm.trans moved')
  rw [still] at yText
  obtain ⟨unpixeled, frames⟩ := framesShown sized scaled shows.size
  obtain ⟨unframed, pixels⟩ := pixelsShown faded shows.alpha
  obtain ⟨fitPixels, fitFrames⟩ := fitUnmarked i
  let format : Filter := ⟨"format", [Graph.placed "rgba"]⟩
  have lead : (Graph.fitFilters i ++ scale ++ [format]).filter isPixelwise = [] := by
    rw [List.filter_append, List.filter_append, fitPixels, unpixeled]
    rfl
  have tail : (format :: alpha).filter isFramewise = [] := by
    rw [List.filter_cons_of_neg (by decide), unframed]
  refine ⟨_, _, rfl, ⟨rfl, by simp [Graph.layFilter, Graph.quotedAs, Graph.named], ?_, ?_, ?_⟩⟩
  · simp only [List.forall_mem_cons, List.not_mem_nil, false_implies, implies_true, and_true]
    exact ⟨quotesText shows.x xText rfl, quotesText shows.y yText rfl,
      quotesText shows.enable enableText rfl⟩
  · have faded := pixelsBeside lead pixels
    rwa [List.append_assoc, List.singleton_append] at faded
  · exact framesBeside fitFrames tail frames

def Overlay.DrawnAs (o : Overlay Scalar) (c : Compiled Scalar) (shown : Entries String)
    (filters : List (List Filter)) : Prop :=
  match o with
  | .image i => ∃ prepare lay, filters = [prepare, [lay]] ∧ i.DrawnAs c shown prepare lay
  | .caption c => ∃ draw, filters = [[draw]] ∧ c.DrawnAs shown draw

theorem Overlay.drawn {o : Overlay Scalar} {c : Compiled Scalar} {shown : Entries String}
    {step : Nat} {source base : String} {chains : List Chain} (trees : o.compiled = .ok c)
    (written : Preview.texts c.trees = .ok shown)
    (done : (Graph.layer o step source base).outcome = .ok chains) :
    o.DrawnAs c shown (chains.map Chain.filters) := by
  cases o with
  | image i => exact Image.drawn trees written done
  | caption c =>
    obtain ⟨chain, drawn, same⟩ := Logged.bindOk.mp done
    cases same
    obtain ⟨draw, only, shows⟩ := Caption.drawn trees written drawn
    exact ⟨draw, by rw [List.map_singleton, only], shows⟩

def growingAndFloating : Rendering :=
  let placed (a : Animation Scalar) : Placement Scalar := ⟨.int 0, .int 6, none, none, some a⟩
  let phase (e : Effect) : Phase Scalar := ⟨e, .int 1, none, .int 2, .int 3, none⟩
  { job :=
      { baseVideo := "base.mp4", duration := none, output := Job.noOutput, images := []
        captions := [], audio := none, fade := none, still := none, values := []
        directory := none }
    encoding := ⟨1080, 1920, 30, 18, "medium", "ffmpeg", "ffprobe"⟩
    overlays := [
      .image ⟨⟨0, ["a.png"]⟩, placed ⟨some (phase .zoom), .int 2, some (phase .fade)⟩, none, none,
        .contain⟩,
      .caption ⟨"Hello", placed ⟨none, .int 2, some (phase .fade)⟩, .int 60, none, "white",
        some ⟨.int 8, .int 1⟩⟩]
    audio := none, fade := none, still := none }

end OverlayMotion
