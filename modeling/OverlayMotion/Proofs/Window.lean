import OverlayMotion.Proofs.Construction
import OverlayMotion.Proofs.DecimalGrid
import OverlayMotion.Proofs.RoundTrip
import OverlayMotion.Proofs.Steps

/-! When an overlay is drawn, from the bounds of its window down to the text in the filter
graph. The two bounds are rounded each on its own in the text; rounding keeps their order,
and moves each by less than any frame could tell. -/
namespace OverlayMotion

namespace Graph
variable {ν : Type} [Number ν]

def optionsNamed (key : String) (chains : List Chain) : List Value :=
  chains.flatMap fun c => c.filters.filterMap fun f => f.option? key

theorem Prepares.always {i : Image ν} {alpha : Option (Expr ν)} {f : Filter}
    (prepares : Prepares i alpha f) : f.option? "enable" = none := by
  cases prepares <;> simp [Filter.option?, placed, quotedAs, Graph.named]

theorem layerEnabled {o : Overlay ν} {step : Nat} {source base : String} {chains : List Chain}
    (done : (layer o step source base).outcome = .ok chains) :
    ∃ m text, (Motion.ofPlacement o.placement o.isCaption).outcome = .ok m ∧
      m.enable.text = .ok text ∧ optionsNamed "enable" chains = [.quoted text] := by
  cases o with
  | image i =>
    obtain ⟨scale, m, alpha, x, y, text, scaled, compiled, faded, -, -, written, rfl⟩ :=
      imageChainsMade done
    refine ⟨m, text, compiled, written, ?_⟩
    have always : ∀ f ∈ prepareFilters i scale alpha, f.option? "enable" = none :=
      fun f inside => (prepares scaled faded f inside).always
    rw [optionsNamed, List.flatMap_cons, List.filterMap_eq_nil_iff.mpr always]
    rfl
  | caption c =>
    obtain ⟨draw, drawn, same⟩ := Logged.bindOk.mp done
    cases same
    obtain ⟨m, height, size, x, y, alpha, text, compiled, -, sized, -, -, -, written, rfl⟩ :=
      captionChainMade drawn
    obtain ⟨-, -, option, -, -⟩ := drawFilterOptions c x y alpha text (sizeArgument sized).1
    exact ⟨m, text, compiled, written, by simp [optionsNamed, option]⟩

end Graph

theorem insideAlike {s s' x ε : Rat} (near : |s' - s| ≤ ε) (far : ε < |x - s|) :
    (s ≤ x ↔ s' ≤ x) ∧ (x ≤ s ↔ x ≤ s') := by
  rw [abs_le] at near
  rcases lt_abs.mp far with after | before
  · exact ⟨⟨fun _ => by linarith, fun _ => by linarith⟩,
      ⟨fun _ => by linarith, fun _ => by linarith⟩⟩
  · exact ⟨⟨fun _ => by linarith, fun _ => by linarith⟩,
      ⟨fun _ => by linarith, fun _ => by linarith⟩⟩

section
variable [Reading]

def Placement.closing (p : Placement Rat) : Rat :=
  match p.animation with
  | none => p.finish
  | some a => min (p.start + a.inDuration + a.hold + a.outDuration) p.finish

theorem Placement.closes (p : Placement Rat) :
    ∃ t, (Timeline.ofPlacement p).outcome = .ok t ∧ t.start = p.start ∧
      t.clampedEnd = p.closing := by
  obtain ⟨t, built, start, stop⟩ : ∃ t, Timeline.build p.start (some p.finish) p.animation = .ok t ∧
      t.start = p.start ∧ t.clampedEnd = p.closing := by
    unfold closing
    cases p.animation with
    | none => exact ⟨_, rfl, rfl, rfl⟩
    | some a => exact ⟨_, rfl, rfl, exactMin _ _⟩
  exact ⟨t, Logged.bindOk.mpr ⟨t, built, rfl⟩, start, stop⟩

theorem Animation.Constructed.lasting {a : Animation Rat} (made : a.Constructed) :
    0 ≤ a.inDuration + a.hold + a.outDuration := by
  have entry : 0 ≤ a.inDuration := by
    unfold Animation.inDuration
    split
    · rename_i p given
      simpa using (made.entry p given).duration
    · simp
  have exit : 0 ≤ a.outDuration := by
    unfold Animation.outDuration
    split
    · rename_i p given
      simpa using (made.exit p given).duration
    · simp
  have hold : 0 ≤ a.hold := by simpa using made.hold
  positivity

theorem Overlay.Constructed.closesInside {o : Overlay Rat} (made : o.Constructed) :
    o.placement.start ≤ o.placement.closing ∧ o.placement.closing ≤ o.placement.finish := by
  have window : o.placement.start ≤ o.placement.finish := by simpa using made.window
  unfold Placement.closing
  split
  · exact ⟨window, le_rfl⟩
  · rename_i a given
    have lasting := (made.animation a given).lasting
    exact ⟨le_min (by linarith) window, min_le_right _ _⟩

namespace Expr

theorem betweenValue {scope : Scope Rat} {x : Rat} (timed : scope "t" = some x) (low high : Rat) :
    eval scope (time.between (.const low) (.const high)) =
      .ok (if low ≤ x ∧ x ≤ high then 1 else 0) := by
  have value : eval scope (time.between (.const low) (.const high)) =
      .ok (Number.ofBool (Number.isBetween x low high)) := by
    simp [between, time, eval, evalAll, timed, Builtin.ofName?, Builtin.apply]
  rw [value, exactOfBool, Number.isBetween]
  simp

theorem betweenWritten (low high : Rat) :
    ∃ text, (time.between (.const low) (.const high)).text = .ok text ∧
      read text = .ok (time.between (.const (denoted low)) (.const (denoted high))) := by
  have normal : Normal (time.between (.const low) (.const high)) := by
    have function : Token.IsName "between".toList := named rfl rfl rfl
    have symbol : Token.IsName "t".toList := named rfl rfl rfl
    exact ⟨function, by simp, symbol, trivial, trivial, trivial⟩
  have writable : Every Writable (time.between (.const low) (.const high)) :=
    ⟨trivial, ⟨_, rfl⟩, ⟨_, rfl⟩, trivial⟩
  obtain ⟨text, rendered⟩ : ∃ text, render (time.between (.const low) (.const high)) = .ok text :=
    renderSucceeds writable
  refine ⟨text, mapErrorOk.mpr rendered, mapErrorOk.mpr ?_⟩
  rw [plainReadsBack normal (by simp [between, time, BasesPlain, AllBasesPlain]) rendered]
  rfl

end Expr

def Expr.Tests (e : Expr Rat) (low high : Rat) : Prop := ∀ (scope : Scope Rat) (x : Rat),
  scope "t" = some x → eval scope e = .ok (if low ≤ x ∧ x ≤ high then 1 else 0)

/-- The window of an accepted overlay, from its bounds to its text. The compiled tree tests
for the times from its start until it closes. The filters that a plan has for the overlay are
switched by the tree's text, which reads back as a test for a window that is not inverted,
and the two tests agree at every time that is not too close to a bound. -/
theorem Overlay.enabledWhileShown {o : Overlay Rat} (made : o.Constructed) :
    o.placement.start ≤ o.placement.closing ∧ o.placement.closing ≤ o.placement.finish ∧
    ∃ t text tree low high, (Timeline.ofPlacement o.placement).outcome = .ok t ∧
      (∀ m, (Motion.ofPlacement o.placement o.isCaption).outcome = .ok m → m.enable = t.enable) ∧
      t.enable.Tests o.placement.start o.placement.closing ∧
      t.enable.text = .ok text ∧
      (∀ c p i, (Graph.plan c).outcome = .ok p → c.overlays[i]? = some o →
        Graph.optionsNamed "enable" (p.step i) = [.quoted text]) ∧
      Expr.read text = .ok tree ∧ low ≤ high ∧ tree.Tests low high ∧
      ∀ scope x, scope "t" = some x → 5 / 10 ^ 10 < |x - o.placement.start| →
        5 / 10 ^ 10 < |x - o.placement.closing| →
        Expr.eval scope tree = Expr.eval scope t.enable := by
  obtain ⟨opens, closes⟩ := made.closesInside
  obtain ⟨t, built, start, stop⟩ := o.placement.closes
  have window : t.enable =
      Expr.time.between (.const o.placement.start) (.const o.placement.closing) := by
    rw [Timeline.enable, start, stop]
  obtain ⟨text, written, back⟩ := Expr.betweenWritten o.placement.start o.placement.closing
  rw [← window] at written
  have switched {m : Motion Rat}
      (compiled : (Motion.ofPlacement o.placement o.isCaption).outcome = .ok m) :
      m.enable = t.enable := by
    obtain ⟨t', built', same⟩ := Motion.switchedBy compiled
    cases built.symm.trans built'
    exact same
  have placed {c : Graph.Composition Rat} {p : Graph.Plan} {i : Nat}
      (planned : (Graph.plan c).outcome = .ok p) (here : c.overlays[i]? = some o) :
      Graph.optionsNamed "enable" (p.step i) = [.quoted text] := by
    obtain ⟨_, _, laid⟩ := Graph.planStep planned here
    obtain ⟨m, shown, compiled, written', options⟩ := Graph.layerEnabled laid
    rw [switched compiled] at written'
    cases written.symm.trans written'
    exact options
  refine ⟨opens, closes, t, text, _, _, _, built, fun _ => switched, ?_, written,
    fun _ _ _ => placed, back, Expr.denotedMono opens, ?_, ?_⟩
  · intro scope x timed
    rw [window, Expr.betweenValue timed]
  · intro scope x timed
    exact Expr.betweenValue timed _ _
  · intro scope x timed before after
    have lower := (insideAlike (Expr.denotedNear _) before).1
    have upper := (insideAlike (Expr.denotedNear _) after).2
    rw [window, Expr.betweenValue timed, Expr.betweenValue timed]
    simp only [lower, upper]

end

def lateCaption : Overlay Rat :=
  let fade (duration : Rat) : Phase Rat := ⟨.fade, duration, none, 1 / 5, 1, none⟩
  .caption ⟨"Hello", ⟨1 / 3, 5, none, none, some ⟨some (fade 1), 1, some (fade (1 / 2))⟩⟩,
    60, none, "white", none⟩

theorem lateCaptionEnabled :
    letI := wholePowers
    let at' (x : Rat) : Expr.Scope Rat := fun _ => some x
    lateCaption.Constructed ∧ lateCaption.placement.closing = 17 / 6 ∧
      ∃ t text tree, (Timeline.ofPlacement lateCaption.placement).outcome = .ok t ∧
        t.enable.text = .ok text ∧ Expr.read text = .ok tree ∧
        Expr.eval (at' 2) tree = .ok 1 ∧ Expr.eval (at' 3) tree = .ok 0 := by
  let _ := wholePowers
  intro at'
  have closing : lateCaption.placement.closing = 17 / 6 := by
    simp only [lateCaption, Overlay.placement, Placement.closing, Animation.inDuration,
      Animation.outDuration]
    norm_num
  have made : lateCaption.Constructed := by
    refine ⟨?_, ?_⟩
    · rintro _ ⟨⟩
      decide +kernel
    · have window : lateCaption.placement.rejection? = none := by
        norm_num [Placement.rejection?, lateCaption, Overlay.placement, firstRejection]
      exact bindOk.mpr ⟨(), acceptOk.mpr window, bindOk.mpr ⟨(), by norm_num [accept], rfl⟩⟩
  obtain ⟨_, _, t, text, tree, low, high, built, _, enables, written, _, back, _, _, agree⟩ :=
    Overlay.enabledWhileShown made
  refine ⟨made, closing, t, text, tree, built, written, back, ?_, ?_⟩
  · rw [agree (at' 2) 2 rfl, enables (at' 2) 2 rfl, closing]
    · norm_num [lateCaption, Overlay.placement]
    · norm_num [lateCaption, Overlay.placement, abs_of_pos]
    · norm_num [closing, abs_of_neg]
  · rw [agree (at' 3) 3 rfl, enables (at' 3) 3 rfl, closing]
    · norm_num [lateCaption, Overlay.placement]
    · norm_num [lateCaption, Overlay.placement, abs_of_pos]
    · norm_num [closing, abs_of_pos]

end OverlayMotion
