import OverlayMotion.Rendering.Preview
import OverlayMotion.Proofs.Compilation
import OverlayMotion.Proofs.Outcome

/-! Previews and plans of overlays with bounded numbers. Every expression that they need is
built and has a text; what can keep an overlay from being shown is a formula alone. -/
namespace OverlayMotion
open OverlayMotion.Expr (Built Sturdy)
open Scalar (Within Loose)

structure Overlay.Compilable (scopes : Set (Expr.Scope Scalar)) (k : Nat) (o : Overlay Scalar) :
    Prop where
  numbers : ∀ v ∈ o.numbers, Within k v
  formulas : ∀ source ∈ o.formulas, scopes = ∅ ∧
    ∀ e, Expr.parse source = .ok e → Expr.Every (Within k) e
  outlasting : scopes.Nonempty → ∀ a ∈ o.placement.animation, a.Outlasting o.placement.start

def Spoken (scopes : Set (Expr.Scope Scalar)) (source : String) : Prop :=
  ∃ e, Sturdy scopes 1000 e ∧ Expr.render e = .ok source

variable {scopes : Set (Expr.Scope Scalar)} {k : Nat} {o : Overlay Scalar}

theorem withinWritable {v : Scalar} (few : k ≤ 1000) (within : Within k v) : Expr.Writable v := by
  obtain ⟨q, finite, _⟩ := within.finite few
  exact ⟨_, by rw [Expr.numeralText, finite]⟩

theorem numberTextHolds {v : Scalar} (few : k ≤ 1000) (within : Within k v) :
    ∃ text, Expr.numberText v = .ok text := by
  obtain ⟨text, written⟩ := withinWritable few within
  exact ⟨String.ofList text, by rw [Expr.numberText, written]; rfl⟩

theorem renderHolds {e : Expr Scalar} (rename : String → String) (few : k ≤ 1000)
    (h : Sturdy scopes k e) : ∃ text, Expr.renderRenamed rename e = .ok text :=
  Expr.renderSucceeds (h.constants.weaken (fun _ => withinWritable few) e)

theorem textHolds {e : Expr Scalar} (few : k ≤ 1000) (h : Sturdy scopes k e) :
    ∃ text, e.text = .ok text := by
  obtain ⟨text, rendered⟩ := renderHolds id few h
  exact ⟨text, mapErrorOk.mpr rendered⟩

theorem textsHold {trees : List (String × Expr Scalar)}
    (each : ∀ tree ∈ trees, Sturdy scopes 1000 tree.2) :
    ∃ texts, Preview.texts trees = .ok texts ∧
      List.Forall₂ (fun tree entry => tree.1 = entry.1 ∧ Spoken scopes entry.2) trees texts := by
  refine eachMade fun tree inside => ?_
  obtain ⟨text, rendered⟩ := renderHolds id le_rfl (each tree inside)
  have written : tree.2.text = .ok text := mapErrorOk.mpr rendered
  exact ⟨(tree.1, text), by simp only [written, okBind, pureIsOk],
    rfl, tree.2, each tree inside, rendered⟩

theorem Overlay.placementNumbers {v : Scalar} (inside : v ∈ o.placement.numbers) :
    v ∈ o.numbers := by
  cases o <;> exact List.mem_append_left _ inside

theorem Overlay.Compilable.placement (h : o.Compilable scopes k) :
    o.placement.Compilable scopes k where
  numbers v inside := h.numbers v (Overlay.placementNumbers inside)
  formulas := h.formulas
  outlasting := h.outlasting

theorem sizeBaseHolds (h : o.Compilable scopes k) : Within k (Preview.sizeBase o) := by
  cases o with
  | image i =>
    cases given : i.width with
    | none =>
      simp only [Preview.sizeBase, Graph.zoomBase, given]
      exact Within.ofNat (n := 1) Nat.one_le_two_pow
    | some width =>
      simp only [Preview.sizeBase, Graph.zoomBase, given]
      refine h.numbers (.int width) (List.mem_append_right _ ?_)
      simp [given]
  | caption c => exact h.numbers _ (List.mem_append_right _ List.mem_cons_self)

theorem idleHolds (h : o.Compilable scopes k) :
    ∀ i ∈ Preview.idle? o, ∀ v ∈ i.numbers, Within k v := by
  intro i given v inside
  cases o with
  | image _ => cases given
  | caption c =>
    refine h.numbers v (List.mem_append_right _ (List.mem_cons_of_mem _ ?_))
    exact List.mem_flatMap.mpr ⟨i, Option.mem_toList.mpr given, inside⟩

section
variable (few : k ≤ 300) (h : o.Compilable scopes k)
  (serves : ∀ scope ∈ scopes, Serves (symbolsFor o.isCaption) k scope)
include few h serves

theorem floatedHeightHolds {motion : Motion Scalar} (hm : motion.Holds scopes (2 * k + 12)) :
    ∃ y, floated o.placement.start motion.y (Preview.idle? o) = .ok y ∧ Sturdy scopes 1000 y := by
  obtain ⟨y, built, hy⟩ := floatedHolds (m := 3 * k + 12) (by omega) (by omega)
    h.placement.begun (idleHolds h)
    (fun scope inside => (serves scope inside).time) (hm.y.mono (by omega))
  exact ⟨y, built, hy.mono (by omega)⟩

theorem sizeHolds : ∃ size,
    zoomSize? o.placement.start o.placement.animation (Preview.sizeBase o) = .ok size ∧
      ∀ e ∈ size, Sturdy scopes (3 * k + 12) e :=
  zoomSizeHolds (by omega) h.placement.begun (sizeBaseHolds h) h.placement.animated
    (fun scope inside => (serves scope inside).time) h.outlasting

theorem Preview.ofOverlayHolds (readable : Readable o.formulas) : ∃ p, (ofOverlay o).outcome = .ok p ∧
    p.isCaption = o.isCaption ∧ ∀ entry ∈ p.expressions, Spoken scopes entry.2 := by
  obtain ⟨motion, moved, hm⟩ := Motion.ofPlacementHolds few h.placement readable serves
  obtain ⟨y, floats, hy⟩ := floatedHeightHolds few h serves hm
  obtain ⟨size, sized, hs⟩ := sizeHolds few h serves
  obtain ⟨t, built, _⟩ := h.placement.timed (by omega)
  have trees : ∀ tree ∈ [("enable", motion.enable), ("x", motion.x), ("y", y)] ++
      named "alpha" motion.alpha ++ named "size" size, Sturdy scopes 1000 tree.2 := by
    intro tree inside
    simp only [named, List.mem_append, List.mem_cons, List.not_mem_nil, or_false, List.mem_map,
      Option.mem_toList] at inside
    rcases inside with ((rfl | rfl | rfl) | ⟨e, given, rfl⟩) | ⟨e, given, rfl⟩
    · exact hm.enable.mono (by omega)
    · exact hm.x.mono (by omega)
    · exact hy
    · exact (hm.alpha e given).mono (by omega)
    · exact (hs e given).mono (by omega)
  obtain ⟨texts, written, along⟩ := textsHold trees
  refine ⟨⟨o.isCaption, o.shortLabel, o.placement.start, t.clampedEnd, texts⟩, ?_, rfl,
    alongMember (along.imp fun _ _ kept => kept.2)⟩
  have observed : ((Timeline.ofPlacement o.placement).mapError
      (Expr.Error.fault : Fault → Expr.Error Scalar)).outcome = .ok t :=
    mapErrorOk.mpr (Logged.bindOk.mpr ⟨t, built, rfl⟩)
  simp only [ofOverlay, Logged.bindOutcome, Logged.liftOutcome, Logged.pureOutcome, moved, floats,
    sized, observed, written, okBind, Expr.ofTrees, Except.mapError]

end

namespace Graph

section
variable {i : Image Scalar} (few : k ≤ 300) (h : (Overlay.image i).Compilable ∅ k)
include few h

theorem frameWidthHolds :
    ∃ width, frameWidth? i = .ok width ∧ ∀ e ∈ width, Sturdy ∅ 1000 e := by
  obtain ⟨size, (sized : zoomSize? _ _ (zoomBase i.width) = .ok size), hs⟩ :=
    sizeHolds few h (by simp)
  have native : Sturdy ∅ 0 (.var "iw") := .ofConstants trivial
  obtain ⟨width, chosen, hw⟩ := optionMapOk (o := size)
    (f := fun size => (if i.width.isSome then .ok size
      else Expr.ofFault ((Expr.var "iw").mul size) : Except (Expr.Failure Scalar) (Expr Scalar)))
    (P := fun _ e => Sturdy ∅ 1000 e) fun e inside => by
      split
      · exact ⟨e, rfl, (hs e inside).mono (by omega)⟩
      · obtain ⟨scaled, built, hp⟩ := Expr.mulHolds (by omega) native (hs e inside)
        exact ⟨scaled, by rw [built, Expr.ofFaultOk], hp.mono (by omega)⟩
  exact ⟨width, bindOk.mpr ⟨size, sized, chosen⟩, relMember hw⟩

theorem scaleHolds : ∃ filters, scaleFilters i = .ok filters := by
  obtain ⟨width, built, hw⟩ := frameWidthHolds few h
  have frame : Expr.ofTrees (frameWidth? i) = .ok width := mapErrorOk.mpr built
  cases width with
  | none =>
    cases given : i.width with
    | none => exact ⟨[], by simp only [scaleFilters, frame, given, okBind, pureIsOk]⟩
    | some w => exact ⟨_, by simp only [scaleFilters, frame, given, okBind, pureIsOk]; rfl⟩
  | some e =>
    obtain ⟨text, written⟩ := textHolds le_rfl (hw e rfl)
    exact ⟨_, by simp only [scaleFilters, frame, written, okBind, pureIsOk]; rfl⟩

theorem imageHolds (readable : Readable i.placement.formulas) (source base prepared output : String) :
    ∃ chains, (imageChains i source base prepared output).outcome = .ok chains := by
  obtain ⟨scale, scaled⟩ := scaleHolds few h
  obtain ⟨motion, moved, hm⟩ := Motion.ofPlacementHolds few h.placement readable (by simp)
  obtain ⟨x, writtenX⟩ := textHolds (by omega) hm.x
  obtain ⟨y, writtenY⟩ := textHolds (by omega) hm.y
  obtain ⟨enable, writtenEnable⟩ := textHolds (by omega) hm.enable
  obtain ⟨alpha, faded⟩ : ∃ filters, alphaFilters motion.alpha = .ok filters := by
    cases given : motion.alpha with
    | none => exact ⟨[], rfl⟩
    | some e =>
      obtain ⟨factor, written⟩ := renderHolds pixelNames (by omega) (hm.alpha e given)
      exact ⟨_, bindOk.mpr ⟨factor, mapErrorOk.mpr written, rfl⟩⟩
  have placed : (Motion.ofPlacement i.placement false).outcome = .ok motion := moved
  exact ⟨_, Logged.bindOk.mpr ⟨scale, scaled, Logged.bindOk.mpr ⟨motion, placed,
    Logged.bindOk.mpr ⟨alpha, faded, Logged.bindOk.mpr ⟨x, writtenX,
      Logged.bindOk.mpr ⟨y, writtenY, Logged.bindOk.mpr ⟨enable, writtenEnable, rfl⟩⟩⟩⟩⟩⟩⟩

end

section
variable {c : Caption Scalar} (few : k ≤ 300) (h : (Overlay.caption c).Compilable ∅ k)
include few h

theorem fontSizeHolds : ∃ argument, fontSizeArgument c = .ok argument := by
  obtain ⟨size, sized, hs⟩ := sizeHolds few h (by simp)
  have found : Expr.ofTrees (zoomSize? c.placement.start c.placement.animation c.fontSize) =
      .ok size := mapErrorOk.mpr sized
  cases size with
  | none =>
    obtain ⟨text, written⟩ := numberTextHolds (by omega) (sizeBaseHolds h)
    exact ⟨_, bindOk.mpr ⟨none, found, bindOk.mpr ⟨text, written, rfl⟩⟩⟩
  | some e =>
    obtain ⟨text, written⟩ := textHolds (by omega) (hs e rfl)
    exact ⟨_, bindOk.mpr ⟨some e, found, bindOk.mpr ⟨text, written, rfl⟩⟩⟩

theorem captionHolds (readable : Readable c.placement.formulas) (base output : String) :
    ∃ chain, (captionChain c base output).outcome = .ok chain := by
  obtain ⟨motion, moved, hm⟩ := Motion.ofPlacementHolds few h.placement readable (by simp)
  obtain ⟨floating, floats, hy⟩ := floatedHeightHolds few h (by simp) hm
  obtain ⟨size, sized⟩ := fontSizeHolds few h
  obtain ⟨x, writtenX⟩ := textHolds (by omega) hm.x
  obtain ⟨y, writtenY⟩ := textHolds le_rfl hy
  obtain ⟨enable, writtenEnable⟩ := textHolds (by omega) hm.enable
  obtain ⟨alpha, faded, _⟩ := optionMapOk (o := motion.alpha) (f := Expr.text)
    (P := fun _ _ => True) fun e given => by
      obtain ⟨text, written⟩ := textHolds (by omega) (hm.alpha e given)
      exact ⟨text, written, trivial⟩
  have placed : (Motion.ofPlacement c.placement true).outcome = .ok motion := moved
  have swung : Expr.ofTrees (floated c.placement.start motion.y c.idle) = .ok floating :=
    mapErrorOk.mpr floats
  have fading : (motion.alpha.mapM fun e => Logged.ofExcept e.text :
      Composing Scalar (Option String)).outcome = .ok alpha := by
    rw [Logged.optionOutcome]
    exact faded
  exact ⟨_, Logged.bindOk.mpr ⟨motion, placed, Logged.bindOk.mpr ⟨floating, swung,
    Logged.bindOk.mpr ⟨size, sized, Logged.bindOk.mpr ⟨x, writtenX, Logged.bindOk.mpr ⟨y, writtenY,
      Logged.bindOk.mpr ⟨alpha, fading, Logged.bindOk.mpr ⟨enable, writtenEnable, rfl⟩⟩⟩⟩⟩⟩⟩⟩

end

theorem composeHolds (few : k ≤ 300) (h : o.Compilable ∅ k) (readable : Readable o.formulas)
    (stage : Stage) :
    ∃ next, (compose stage o).outcome = .ok next := by
  cases o with
  | image i =>
    obtain ⟨chains, made⟩ := imageHolds few h readable s!"{stage.nextInput}:v" stage.label
      s!"img{stage.step}" s!"v{stage.step}"
    exact ⟨_, Logged.bindOk.mpr ⟨chains, made, rfl⟩⟩
  | caption c =>
    obtain ⟨chain, made⟩ := captionHolds few h readable stage.label s!"v{stage.step}"
    exact ⟨_, Logged.bindOk.mpr ⟨(), rfl, Logged.bindOk.mpr ⟨chain, made, rfl⟩⟩⟩

theorem fadeInHolds (filter : String) {length : Scalar} (few : k ≤ 1000) (h : Within k length) :
    ∃ filters, fadeInFilters filter length = .ok filters := by
  obtain ⟨text, written⟩ := numberTextHolds few h
  unfold fadeInFilters
  split
  · exact ⟨_, bindOk.mpr ⟨text, written, rfl⟩⟩
  · exact ⟨[], rfl⟩

theorem fadeOutHolds (filter : String) {length duration : Scalar} (few : k < 1000)
    (h : Within k length) (measured : Within k duration) :
    ∃ fade, fadeOutFilter filter length duration = .ok fade := by
  obtain ⟨left, difference, hl⟩ := measured.sub (by simpa using few) h
  have begins : Within (max k k + 1) (Number.max left Number.zero) := by
    unfold Number.max
    split_ifs
    · exact Within.ofNat (n := 0) (Nat.zero_le _)
    · exact hl
  obtain ⟨st, writtenStart⟩ := numberTextHolds (by simp; omega) begins
  obtain ⟨d, written⟩ := numberTextHolds few.le h
  have start : Expr.ofNumbers (fadeOutStart duration length) =
      (.ok (Number.max left Number.zero) : Except (Expr.Error Scalar) Scalar) := by
    rw [fadeOutStart, difference]
    rfl
  exact ⟨_, bindOk.mpr ⟨_, start, bindOk.mpr ⟨st, writtenStart, bindOk.mpr ⟨d, written, rfl⟩⟩⟩⟩

theorem fadesHold (filter : String) {fadeIn fadeOut : Scalar} {duration : Option Scalar}
    (skipped : Notice Scalar) (few : k < 1000) (hi : Within k fadeIn) (ho : Within k fadeOut)
    (hd : ∀ d ∈ duration, Within k d) :
    ∃ filters, (fadeFilters filter fadeIn fadeOut duration skipped).outcome = .ok filters := by
  obtain ⟨entering, entered⟩ := fadeInHolds filter few.le hi
  simp only [fadeFilters, Logged.bindOutcome, Logged.liftOutcome, entered, okBind]
  split
  · cases duration with
    | none => exact ⟨entering, rfl⟩
    | some d =>
      obtain ⟨fade, faded⟩ := fadeOutHolds filter few ho (hd d rfl)
      exact ⟨_, Logged.bindOk.mpr ⟨fade, faded, rfl⟩⟩
  · exact ⟨entering, rfl⟩

structure Composition.Plannable (k : Nat) (c : Composition Scalar) : Prop where
  overlays : ∀ o ∈ c.overlays, o.Compilable ∅ k
  duration : ∀ d ∈ c.duration, Within k d
  audio : ∀ a ∈ c.audio, Within k a.fadeIn ∧ Within k a.fadeOut
  fade : ∀ f ∈ c.fade, Within k f.fadeIn ∧ Within k f.fadeOut
  still : ∀ s ∈ c.still, Within k s.duration ∧ Within k s.fadeIn

section
variable {c : Composition Scalar} (few : k ≤ 300) (h : c.Plannable k)
include few h

theorem pictureHolds : ∃ fades, (pictureFades c).outcome = .ok fades := by
  unfold pictureFades
  split
  · rename_i fade given
    obtain ⟨entering, leaving⟩ := h.fade fade given
    exact fadesHold "fade" _ (by omega) entering leaving h.duration
  · exact ⟨[], rfl⟩

theorem finishHolds (label : String) (finish : List Filter) (inputs : Nat) :
    ∃ chains media total, (finishPicture c label finish inputs).outcome = .ok (chains, media, total) ∧
      ∀ d ∈ total, Within (k + 1) d := by
  unfold finishPicture
  split
  · exact ⟨_, _, _, rfl, fun d given => (h.duration d given).mono (Nat.le_succ k)⟩
  · rename_i still given
    obtain ⟨lasts, entering⟩ := h.still still given
    obtain ⟨seconds, written⟩ := numberTextHolds (by omega) lasts
    obtain ⟨fade, faded⟩ := fadeInHolds "fade" (by omega) entering
    obtain ⟨total, summed, ht⟩ := optionMapOk (o := c.duration)
      (f := fun d => (Expr.ofNumbers (Number.add d still.duration) :
        Except (Expr.Error Scalar) Scalar)) (P := fun _ d => Within (k + 1) d) fun d given => by
        obtain ⟨sum, built, hs⟩ := (h.duration d given).add (by simp; omega) lasts
        exact ⟨sum, mapErrorOk.mpr built, by simpa using hs⟩
    have total' : (c.duration.mapM fun d =>
        Logged.ofExcept (Expr.ofNumbers (Number.add d still.duration)) :
        Composing Scalar (Option Scalar)).outcome = .ok total := by
      rw [Logged.optionOutcome]
      exact summed
    exact ⟨_, _, _, Logged.bindOk.mpr ⟨_, bindOk.mpr ⟨seconds, written, rfl⟩,
      Logged.bindOk.mpr ⟨_, bindOk.mpr ⟨fade, faded, rfl⟩,
        Logged.bindOk.mpr ⟨total, total', rfl⟩⟩⟩, relMember ht⟩

theorem soundHolds (index : Nat) {total : Option Scalar} (ht : ∀ d ∈ total, Within (k + 1) d) :
    ∃ made, (finishSound c.audio index total).outcome = .ok made := by
  unfold finishSound
  split
  · exact ⟨_, rfl⟩
  · rename_i audio given
    obtain ⟨entering, leaving⟩ := h.audio audio given
    obtain ⟨filters, faded⟩ := fadesHold "afade" .audioFadeSkipped (by omega)
      (entering.mono (Nat.le_succ k)) (leaving.mono (Nat.le_succ k)) ht
    cases filters with
    | nil => exact ⟨_, Logged.bindOk.mpr ⟨_, Logged.bindOk.mpr ⟨[], faded, rfl⟩, rfl⟩⟩
    | cons filter rest =>
      exact ⟨_, Logged.bindOk.mpr ⟨_, Logged.bindOk.mpr ⟨filter :: rest, faded, rfl⟩, rfl⟩⟩

theorem planHolds (readable : ∀ o ∈ c.overlays, Readable o.formulas) :
    ∃ plan, (Graph.plan c).outcome = .ok plan := by
  obtain ⟨stage, composed⟩ := Logged.foldTotal
    (fun o inside => composeHolds few (h.overlays o inside) (readable o inside)) Stage.first
  obtain ⟨fades, faded⟩ := pictureHolds few h
  obtain ⟨chains, media, total, finished, ht⟩ := finishHolds few h stage.label
    (fades ++ [⟨"scale", [placed (toString c.size.1), placed (toString c.size.2)]⟩])
    (⟨c.base, []⟩ :: overlayInputs c.overlays : List MediaInput).length
  obtain ⟨sound, heard⟩ := soundHolds few h
    ((⟨c.base, []⟩ :: overlayInputs c.overlays) ++ media : List MediaInput).length ht
  exact ⟨_, Logged.bindOk.mpr ⟨stage, composed, Logged.bindOk.mpr ⟨fades, faded,
    Logged.bindOk.mpr ⟨_, finished, Logged.bindOk.mpr ⟨sound, heard, rfl⟩⟩⟩⟩⟩

end

end Graph

end OverlayMotion
