import OverlayMotion.Proofs.Alongside
import OverlayMotion.Proofs.ZoomBounds

/-! A zoom in proportion to its base, over exact rationals. Of two bases, one a multiple of the
other, the sizes have the same multiple at every time, whatever was folded while they were built.
So a factor that is multiplied with the width of the frame scales an image as its width would. -/
namespace OverlayMotion

open OverlayMotion.Expr

theorem partwayScaled (k first last share : Rat) :
    partway (k * first) (k * last) share = k * partway first last share := by
  unfold partway
  ring

theorem Phase.grownScaled (k began base now : Rat) (p : Phase Rat) :
    p.grown began (k * base) now = k * p.grown began base now := by
  simp only [grown, mul_left_comm _ k base, partwayScaled]
  cases p.overshoot with
  | none => rfl
  | some factor => exact (mul_ite _ k _ _).symm

theorem Phase.shrunkScaled (k rest began base now : Rat) (p : Phase Rat) :
    p.shrunk (k * rest) began (k * base) now = k * p.shrunk rest began base now := by
  simp only [shrunk, mul_left_comm _ k base, partwayScaled]

theorem chosenMapped {α β : Type} (f : α → β) (comes goes : Prop) [Decidable comes]
    [Decidable goes] (coming going : Option α) (rest : α) :
    ((if comes then coming.map f else none).or (if goes then going.map f else none)).getD (f rest) =
      f (((if comes then coming else none).or (if goes then going else none)).getD rest) := by
  split_ifs <;> cases coming <;> cases going <;> rfl

theorem sizeMachineScaled (k start base now : Rat) (animation : Option (Animation Rat)) :
    sizeMachine start animation (k * base) now =
      (sizeMachine start animation base now).map (k * ·) := by
  cases animation with
  | none => rfl
  | some a =>
    simp only [sizeMachine, Option.bind_eq_bind, Option.bind_some]
    cases (zooming a.entry).or (zooming a.exit) with
    | none => rfl
    | some resting =>
      have grows : Phase.grown start (k * base) now = (k * ·) ∘ Phase.grown start base now :=
        funext (Phase.grownScaled k start base now)
      have shrinks (rest began : Rat) : Phase.shrunk (k * rest) began (k * base) now =
          (k * ·) ∘ Phase.shrunk rest began base now :=
        funext (Phase.shrunkScaled k rest began base now)
      simp only [Option.bind_some, mul_left_comm _ k base, grows, shrinks]
      simp only [← Option.map_map]
      exact congrArg some (chosenMapped (k * ·) _ _ _ _ _)

def Animation.Zooms (a : Animation Rat) : Prop :=
  ∃ p, (p ∈ a.entry ∨ p ∈ a.exit) ∧ p.effect = .zoom

theorem sizeMachineShown {animation : Option (Animation Rat)} (start base now : Rat) :
    (sizeMachine start animation base now).isSome ↔ ∃ a ∈ animation, a.Zooms := by
  cases animation with
  | none => simp [sizeMachine]
  | some a =>
    have zooms : ((zooming a.entry).or (zooming a.exit)).isSome ↔ a.Zooms := by
      simp only [Option.isSome_or, Bool.or_eq_true, Option.isSome_iff_exists, ← Option.mem_def,
        zoomingMember, Animation.Zooms, or_and_right, exists_or]
    rw [sizeMachine, Option.bind_eq_bind, Option.bind_some]
    cases resting : (zooming a.entry).or (zooming a.exit) with
    | none => simp_all
    | some p => simp_all

section
variable [Reading]

def InProportion (k : Rat) (e e' : Expr Rat) : Prop :=
  ∀ scope now, eval scope time = .ok now → ∃ v, eval scope e = .ok v ∧ eval scope e' = .ok (k * v)

theorem zoomSizeShown (exact : PowersExact) (start base : Rat)
    {animation : Option (Animation Rat)} (made : ∀ a ∈ animation, a.Constructed) :
    ∃ size, zoomSize? start animation base = .ok size ∧
      (size.isSome ↔ ∃ a ∈ animation, a.Zooms) := by
  obtain ⟨size, compiled, values⟩ := zoomSizeValue exact start base made
  refine ⟨size, compiled, ?_⟩
  rw [relShown (values (Scope.constants.extend [("t", (0 : Rat))]) 0 rfl), sizeMachineShown]

theorem zoomSizeScaled (exact : PowersExact) (start base k : Rat)
    {animation : Option (Animation Rat)} (made : ∀ a ∈ animation, a.Constructed) :
    Both (Option.Rel (InProportion k)) (zoomSize? start animation base)
      (zoomSize? start animation (k * base)) := by
  obtain ⟨size, compiled, values⟩ := zoomSizeValue exact start base made
  obtain ⟨scaled, compiled', values'⟩ := zoomSizeValue exact start (k * base) made
  simp only [sizeMachineScaled] at values'
  refine ⟨size, scaled, compiled, compiled', ?_⟩
  have timed : eval (Scope.constants.extend [("t", (0 : Rat))]) time = .ok 0 := rfl
  have present : size.isSome = scaled.isSome := by
    rw [relShown (values _ 0 timed), relShown (values' _ 0 timed), Option.isSome_map]
  cases size with
  | none =>
    cases scaled with
    | none => exact .none
    | some _ => cases present
  | some e =>
    cases scaled with
    | none => cases present
    | some e' =>
      refine .some fun scope now hnow => ?_
      obtain ⟨v, machine, value⟩ := relValue (values scope now hnow)
      obtain ⟨w, multiple, value'⟩ := relValue (values' scope now hnow)
      rw [machine, Option.map_some] at multiple
      cases multiple
      exact ⟨v, value, value'⟩

structure Image.ScaledBy (i : Image Rat) (width : Expr Rat) : Prop where
  framed : Graph.frameWidth? i = .ok (some width)
  quoted : ∃ text, width.text = .ok text ∧ Graph.scaleFilters i = .ok
    [⟨"scale", [Graph.quotedAs "w" text, Graph.named "h" "-1", Graph.named "eval" "frame"]⟩]

theorem rationalText (e : Expr Rat) : ∃ text, e.text = .ok text := by
  have writable : Every Writable e := Every.always (fun q => ⟨Decimal.nineDecimals q, rfl⟩) e
  obtain ⟨text, rendered⟩ : ∃ text, renderRenamed id e = .ok text := renderSucceeds writable
  exact ⟨text, mapErrorOk.mpr rendered⟩

theorem scaledByFrame {i : Image Rat} {width : Expr Rat}
    (framed : Graph.frameWidth? i = .ok (some width)) : i.ScaledBy width := by
  obtain ⟨text, written⟩ := rationalText width
  refine ⟨framed, text, written, ?_⟩
  simp only [Graph.scaleFilters, framed, Expr.ofTrees, Except.mapError, okBind, written, pureIsOk]

theorem frameScaled (exact : PowersExact) (i : Image Rat) (width : Int)
    (made : ∀ a ∈ i.placement.animation, a.Constructed)
    (zooms : ∃ a ∈ i.placement.animation, a.Zooms) :
    ∃ free fixed, Image.ScaledBy { i with width := none } free ∧
      Image.ScaledBy { i with width := some width } fixed ∧
      ∀ scope now, eval scope time = .ok now → eval scope (.var "iw") = .ok (width : Rat) →
        ∃ v, eval scope free = .ok v ∧ eval scope fixed = .ok v := by
  obtain ⟨sized, shown, present⟩ := zoomSizeShown exact i.placement.start 1 made
  obtain ⟨size, fixed, compiled, compiled', related⟩ :=
    zoomSizeScaled exact i.placement.start 1 width made
  obtain rfl := Except.ok.inj (shown.symm.trans compiled)
  obtain ⟨unit, rfl⟩ := Option.isSome_iff_exists.mp (present.mpr zooms)
  obtain ⟨fixed, rfl, scaled⟩ := relValue related
  obtain ⟨free, product, value⟩ := productValue (.var "iw") unit
  refine ⟨free, fixed, scaledByFrame ?_, scaledByFrame ?_, fun scope now hnow native => ?_⟩
  · refine bindOk.mpr ⟨some unit, by simpa [Graph.zoomBase] using compiled, ?_⟩
    simp [product]
  · refine bindOk.mpr ⟨some fixed, by simpa [Graph.zoomBase] using compiled', ?_⟩
    simp
  · obtain ⟨v, unitValue, fixedValue⟩ := scaled scope now hnow
    exact ⟨width * v, value scope _ _ native unitValue, fixedValue⟩

/-- A size is there if a phase zooms, whatever the base, and is in proportion to it. So of an
image that zooms, the size planned without a width, whose unit is the frame's own width, is the
size planned with a width wherever the frame has that width. -/
theorem zoomScalesWithBase (exact : PowersExact) :
    (∀ start base k animation, (∀ a ∈ animation, a.Constructed) →
      Both (fun size scaled => Option.Rel (InProportion k) size scaled ∧
          (size.isSome ↔ ∃ a ∈ animation, a.Zooms))
        (zoomSize? start animation base) (zoomSize? start animation (k * base))) ∧
    ∀ (i : Image Rat) (width : Int), (∀ a ∈ i.placement.animation, a.Constructed) →
      (∃ a ∈ i.placement.animation, a.Zooms) →
      ∃ free fixed, Image.ScaledBy { i with width := none } free ∧
        Image.ScaledBy { i with width := some width } fixed ∧
        ∀ scope now, eval scope time = .ok now → eval scope (.var "iw") = .ok (width : Rat) →
          ∃ v, eval scope free = .ok v ∧ eval scope fixed = .ok v := by
  refine ⟨fun start base k animation made => ?_, fun i width => frameScaled exact i width⟩
  obtain ⟨size, shown, present⟩ := zoomSizeShown exact start base made
  obtain ⟨size', scaled, compiled, compiled', related⟩ := zoomSizeScaled exact start base k made
  obtain rfl := Except.ok.inj (shown.symm.trans compiled)
  exact ⟨size, scaled, compiled, compiled', related, present⟩

end

def doubling : Animation Rat := ⟨some ⟨.zoom, 1, none, 1 / 2, 1, none⟩, 1, none⟩

def doublingImage (width : Option Int) : Image Rat :=
  ⟨Path.ofString "logo.png", ⟨0, 3, none, none, some doubling⟩, width, none, .contain⟩

theorem doublingScalesWithBase :
    letI := naturalPowers
    (∃ unit twice, zoomSize? 0 (some doubling) 1 = .ok (some unit) ∧
      zoomSize? 0 (some doubling) (2 * 1) = .ok (some twice) ∧ InProportion 2 unit twice) ∧
    ∃ free fixed v, (doublingImage none).ScaledBy free ∧ (doublingImage (some 2)).ScaledBy fixed ∧
      let scope := Scope.constants.extend [("t", 1 / 2), ("iw", 2)]
      eval scope free = .ok v ∧ eval scope fixed = .ok v := by
  let _ := naturalPowers
  have made : ∀ a ∈ some doubling, a.Constructed := by
    rintro _ ⟨⟩
    decide +kernel
  have zooms : ∃ a ∈ some doubling, a.Zooms := ⟨doubling, rfl, _, .inl rfl, rfl⟩
  obtain ⟨sizes, images⟩ := @zoomScalesWithBase naturalPowers naturalPowersExact
  constructor
  · obtain ⟨size, scaled, built, built', related, present⟩ := sizes 0 1 2 (some doubling) made
    obtain ⟨unit, rfl⟩ := Option.isSome_iff_exists.mp (present.mpr zooms)
    obtain ⟨twice, rfl, proportion⟩ := relValue related
    exact ⟨unit, twice, built, built', proportion⟩
  · obtain ⟨free, fixed, first, second, agree⟩ := images (doublingImage none) 2 made zooms
    obtain ⟨v, value, value'⟩ := agree (Scope.constants.extend [("t", 1 / 2), ("iw", 2)]) (1 / 2)
      rfl rfl
    exact ⟨free, fixed, v, first, second, value, value'⟩

end OverlayMotion
