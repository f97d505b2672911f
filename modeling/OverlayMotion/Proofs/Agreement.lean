import OverlayMotion.Proofs.Fragment
import OverlayMotion.Proofs.Inspection
import OverlayMotion.Proofs.RoundTrip

/-! Samples beside the trees that are compiled. A sample prints every tree, reads it back and
evaluates it in a scope with several names for one dimension. Without formula text among the
positions the printed trees come back as they were but for their constants, so a sample has
the values of the compiled trees, and fails where one of them has none. -/
namespace OverlayMotion

namespace Expr

section
variable {ν : Type} [Number ν] {rename : String → String}

mutual

theorem printedWritable : ∀ {e : Expr ν} {whole : Bool} {text : List Char},
    print rename whole e = .ok text → Every Writable e
  | .const v, _, _, printed => by
    obtain ⟨text, written, _⟩ := bindOk.mp printed
    exact ⟨text, written⟩
  | .var _, _, _, _ => trivial
  | .neg e, _, _, printed => by
    obtain ⟨text, inner, _⟩ := bindOk.mp printed
    have operand : Every Writable e := printedWritable inner
    exact operand
  | .binary _ left right, _, _, printed => by
    obtain ⟨l, first, rest⟩ := bindOk.mp printed
    obtain ⟨r, second, _⟩ := bindOk.mp rest
    exact ⟨printedWritable first, printedWritable second⟩
  | .call _ arguments, _, _, printed => by
    obtain ⟨texts, inner, _⟩ := bindOk.mp printed
    exact printedAllWritable inner

theorem printedAllWritable : ∀ {es : List (Expr ν)} {texts : List (List Char)},
    printAll rename es = .ok texts → EveryAll Writable es
  | [], _, _ => trivial
  | e :: es, _, printed => by
    obtain ⟨text, first, rest⟩ := bindOk.mp printed
    obtain ⟨texts, others, _⟩ := bindOk.mp rest
    exact ⟨printedWritable first, printedAllWritable others⟩

end

end

theorem textWritable {e : Expr Scalar} {text : String} (written : e.text = .ok text) :
    Every Writable e := by
  obtain ⟨cs, printed, _⟩ := mapOk.mp (mapErrorOk.mp written)
  exact printedWritable printed

theorem Regular.readsBack {e : Expr Scalar} (regular : Regular e) {text : String}
    (written : e.text = .ok text) : read text = .ok (respelled id e) :=
  mapErrorOk.mpr (plainReadsBack regular.normal regular.bases (mapErrorOk.mp written))

end Expr

def filterNames (isCaption : Bool) (canvas object : Scalar × Scalar) (time : Scalar) :
    List (String × Scalar) :=
  let common := [("t", time), ("main_w", canvas.1), ("main_h", canvas.2), ("W", canvas.1),
    ("H", canvas.2)]
  if isCaption then common ++ [("w", canvas.1), ("h", canvas.2), ("text_w", object.1),
    ("text_h", object.2), ("tw", object.1), ("th", object.2)]
  else common ++ [("overlay_w", object.1), ("overlay_h", object.2), ("w", object.1),
    ("h", object.2)]

def measuredSize (isCaption : Bool) (measured : Entries Float) : Scalar × Scalar :=
  let side (name : String) : Scalar := .float ((measured.lookup name).getD 0)
  if isCaption then (side "text_w", side "text_h") else (side "overlay_w", side "overlay_h")

theorem Expr.Scope.extendAgree {outer : Expr.Scope Scalar} {as bs : List (String × Scalar)}
    (agree : ∀ name ∈ as.map Prod.fst ++ bs.map Prod.fst,
      as.reverse.lookup name = bs.reverse.lookup name) : outer.extend as = outer.extend bs := by
  funext name
  have same : as.reverse.lookup name = bs.reverse.lookup name := by
    by_cases bound : name ∈ as.map Prod.fst ++ bs.map Prod.fst
    · exact agree name bound
    · have absent {l : List (String × Scalar)} (free : name ∉ l.map Prod.fst) :
          l.reverse.lookup name = none := by
        rw [List.lookup_eq_none_iff]
        intro entry inside
        have other : name ≠ entry.1 := by
          rintro rfl
          exact free (List.mem_map_of_mem (List.mem_reverse.mp inside))
        simpa using other
      rw [List.mem_append, not_or] at bound
      rw [absent bound.1, absent bound.2]
  unfold extend
  rw [same]

theorem bindingsNamed (e : Encoding) (measured : Entries Float) (isCaption : Bool) (time : Float) :
    Expr.Scope.constants.extend (Preview.bindings e measured isCaption time) =
      Expr.Scope.constants.extend (filterNames isCaption (.int e.width, .int e.height)
        (measuredSize isCaption measured) (.float time)) := by
  refine Expr.Scope.extendAgree (List.forall_iff_forall_mem.mp ?_)
  cases isCaption with
  | true =>
    simp only [Preview.bindings, filterNames, symbolsFor, captionSymbols, Symbols.bind,
      List.map_cons, List.map_nil, List.cons_append, List.nil_append, List.Forall,
      if_true]
    and_intros <;> rfl
  | false =>
    simp only [Preview.bindings, filterNames, symbolsFor, imageSymbols, Symbols.bind,
      List.map_cons, List.map_nil, List.cons_append, List.nil_append, List.Forall,
      Bool.false_eq_true, if_false]
    and_intros <;> rfl

def Overlay.Renders (o : Overlay Scalar) : Prop :=
  ∃ c, o.compiled = .ok c ∧ ∀ tree ∈ c.trees, ∃ text, tree.2.text = .ok text

def Overlay.values (o : Overlay Scalar) (e : Encoding) (measured : Entries Float) (time : Float) :
    Except (Expr.Error Scalar) (Entries Float) := do
  let c ← o.compiled
  let names := filterNames o.isCaption (.int e.width, .int e.height)
    (measuredSize o.isCaption measured) (.float time)
  c.trees.mapM fun (name, tree) => do
    return (name, ← Expr.evaluate names (Expr.respelled id tree))

theorem Overlay.compiledRegular {o : Overlay Scalar} (plain : o.formulas = []) :
    Returns (fun c => ∀ tree ∈ c.trees, tree.2.Regular) o.compiled := by
  intro c compiled
  obtain ⟨moved, raised, sized⟩ := Overlay.compiledOk.mp compiled
  have reads : ∀ source ∈ o.placement.formulas,
      Returns Expr.Regular (Expr.read source : Except _ (Expr Scalar)) := by
    rw [show o.placement.formulas = [] from plain]
    exact nofun
  have motion := Expr.regularInherited.placement reads o.isCaption c.motion moved
  have height := Expr.regularInherited.carried.floated motion.y c.height (mapErrorOk.mp raised)
  have size := Expr.regularInherited.carried.zoomSize c.size (mapErrorOk.mp sized)
  have optional {name : String} {e? : Option (Expr Scalar)} (each : ∀ e ∈ e?, e.Regular) :
      ∀ tree ∈ Preview.named name e?, tree.2.Regular := by
    intro tree inside
    obtain ⟨e, given, rfl⟩ := List.mem_map.mp inside
    exact each e (Option.mem_toList.mp given)
  intro tree inside
  rcases List.mem_append.mp inside with inside | sized
  · rcases List.mem_append.mp inside with inside | faded
    · simp only [List.mem_cons, List.not_mem_nil, or_false] at inside
      rcases inside with rfl | rfl | rfl
      · exact motion.enable
      · exact motion.x
      · exact height
    · exact optional motion.alpha tree faded
  · exact optional size tree sized

theorem Preview.valuesOfTrees {o : Overlay Scalar} (plain : o.formulas = []) {p : Preview}
    (shown : (ofOverlay o).outcome = .ok p) (e : Encoding) (measured : Entries Float)
    (time : Float) : p.sample e measured time = o.values e measured time := by
  obtain ⟨c, t, texts, compiled, -, written, rfl⟩ := madeIff.mp shown
  have regular := Overlay.compiledRegular plain c compiled
  rw [Preview.texts, eachOk] at written
  rw [sample, Overlay.values, compiled, okBind]
  refine eachAlong (((List.forall₂_and_left _ _).mpr ⟨regular, written⟩).imp ?_)
  rintro ⟨name, tree⟩ entry ⟨regular, made⟩
  obtain ⟨text, printed, same⟩ := bindOk.mp made
  cases same
  simp only [regular.readsBack printed, okBind, Expr.evaluate, bindingsNamed]

theorem Overlay.rendersIff {o : Overlay Scalar} :
    o.Renders ↔ ∃ p, (Preview.ofOverlay o).outcome = .ok p := by
  constructor
  · rintro ⟨c, compiled, renders⟩
    obtain ⟨t, built, -⟩ := Motion.switchedBy (Overlay.compiledOk.mp compiled).1
    obtain ⟨texts, written, -⟩ := eachMade (P := fun _ _ => True)
      (f := fun (tree : String × Expr Scalar) => do return (tree.1, ← tree.2.text))
      fun tree (inside : tree ∈ c.trees) => by
        obtain ⟨text, written⟩ := renders tree inside
        exact ⟨(tree.1, text), bindOk.mpr ⟨text, written, rfl⟩, trivial⟩
    exact ⟨_, Preview.madeIff.mpr ⟨c, t, texts, compiled, built, written, rfl⟩⟩
  · rintro ⟨p, shown⟩
    obtain ⟨c, t, texts, compiled, -, written, -⟩ := Preview.madeIff.mp shown
    refine ⟨c, compiled, fun tree inside => ?_⟩
    rw [Preview.texts, eachOk] at written
    obtain ⟨entry, -, made⟩ := alongSource written tree inside
    obtain ⟨text, printed, -⟩ := bindOk.mp made
    exact ⟨text, printed⟩

/-- Without formula text among the positions, a sample at any time has the values of the
compiled trees, each constant as its text denotes it, and fails where one of them does. -/
theorem Rendering.samplesCompiledTrees {r : Rendering} (plain : ∀ o ∈ r.overlays, o.formulas = [])
    (renders : ∀ o ∈ r.overlays, o.Renders) (time : Float) (measured : Entries Float) (h : Host) :
    (r.sample time measured h).1 =
        r.overlays.mapM (fun o => Failure.ofFormula (o.values r.encoding measured time)) ∧
      ∀ o ∈ r.overlays, ∀ c, o.compiled = .ok c → ∀ tree ∈ c.trees,
        Expr.Every (fun v => Expr.TextDenotes v (Expr.denoted v)) tree.2 := by
  obtain ⟨previews, shown, along⟩ := eachMade (f := fun o => (Preview.ofOverlay o).outcome)
    (P := fun o p => p.sample r.encoding measured time = o.values r.encoding measured time)
    fun o inside => by
      obtain ⟨p, made⟩ := Overlay.rendersIff.mp (renders o inside)
      exact ⟨p, made, Preview.valuesOfTrees (plain o inside) made r.encoding measured time⟩
  have previewed : (r.preview h).1 = .ok previews := previewOk.mpr (eachOk.mp shown)
  constructor
  · simp only [sample, Session.bindOutcome, previewed, okBind, Session.eachExcept]
    exact eachAlong (along.imp fun o p same => by rw [same])
  · intro o inside c compiled tree among
    obtain ⟨c', compiled', texts⟩ := renders o inside
    cases compiled.symm.trans compiled'
    obtain ⟨text, written⟩ := texts tree among
    exact (Expr.textWritable written).weaken (fun _ => Expr.writtenDenoted) tree.2

theorem growingAndFloatingSampled :
    let host : Host := ⟨.empty, [], fun _ => none, [], [], []⟩
    let time := Scalar.small 2
    let measured : Entries Float := [("text_w", Scalar.small 3), ("overlay_h", Scalar.small 5)]
    (growingAndFloating.sample time measured host).1.isOk = true ∧
      (growingAndFloating.sample time measured host).1 = growingAndFloating.overlays.mapM
        (fun o => Failure.ofFormula (o.values growingAndFloating.encoding measured time)) := by
  intro host time measured
  have plain : ∀ o ∈ growingAndFloating.overlays, o.formulas = [] := by decide
  have renders : ∀ o ∈ growingAndFloating.overlays, o.Renders := by
    have shown : ∀ o ∈ growingAndFloating.overlays, (Preview.ofOverlay o).outcome.isOk = true := by
      decide +kernel
    exact fun o inside => Overlay.rendersIff.mpr (succeeded (shown o inside))
  refine ⟨?_, (Rendering.samplesCompiledTrees plain renders time measured host).1⟩
  decide +kernel

end OverlayMotion
