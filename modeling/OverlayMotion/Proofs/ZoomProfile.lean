import OverlayMotion.Proofs.PhaseMachine

/-! The machine that compiled sizes follow, over exact rationals. It has the phases of
positions and opacities, but is no function of a phase's covered share alone: with an
overshoot an entry first rises to its peak, for seven tenths of its length, and then
settles. -/
namespace OverlayMotion

def zooming (phase : Option (Phase Rat)) : Option (Phase Rat) :=
  phase.filter fun p => p.effect == .zoom

def lasting (phase : Option (Phase Rat)) : Option (Phase Rat) :=
  phase.filter fun p => p.duration ≠ 0

def Phase.rise (p : Phase Rat) : Rat := p.duration * (7 / 10)

def partway (first last share : Rat) : Rat := first + share * (last - first)

def Phase.grown (began base now : Rat) (p : Phase Rat) : Rat :=
  let low := p.zoomFrom * base
  let high := p.zoomTo * base
  match p.overshoot with
  | none => partway low high (p.covered began now)
  | some factor =>
    let summit := began + p.rise
    if now < summit then
      partway low (factor * base)
        ((p.easing.getD .easeOut).share (limited ((now - began) / p.rise)))
    else partway (factor * base) high (limited ((now - summit) / (p.duration - p.rise)))

def Phase.shrunk (rest began base now : Rat) (p : Phase Rat) : Rat :=
  partway rest (p.zoomFrom * base) (p.covered began now)

def sizeMachine (start : Rat) (animation : Option (Animation Rat)) (base now : Rat) :
    Option Rat := do
  let a ← animation
  let resting ← (zooming a.entry).or (zooming a.exit)
  let rest := resting.zoomTo * base
  let inEnd := start + (a.entry.map Phase.duration).getD 0
  let holdEnd := inEnd + a.hold
  let coming := if now < inEnd then
    (lasting (zooming a.entry)).map (Phase.grown start base now) else none
  let going := if holdEnd ≤ now then
    (lasting (zooming a.exit)).map (Phase.shrunk rest holdEnd base now) else none
  return (coming.or going).getD rest

variable [Reading]

open OverlayMotion.Expr

theorem visibleZooming (phase : Option (Phase Rat)) :
    Phase.visible? (zooming phase) = lasting (zooming phase) := by
  cases zooms : zooming phase with
  | none => rfl
  | some p =>
    have effect : p.effect = .zoom := by
      simpa using (Option.mem_filter_iff.mp (show p ∈ phase.filter _ from zooms)).2
    rw [visiblePhase, effect]
    by_cases zero : p.duration = 0 <;> simp [lasting, Option.filter_some, zero]

theorem lastingZooming {phase : Option (Phase Rat)} (made : ∀ p ∈ phase, p.Constructed) :
    ∀ p ∈ lasting (zooming phase), p ∈ phase ∧ p ∈ zooming phase ∧ 0 < p.duration := by
  intro p inside
  obtain ⟨zooms, _⟩ := Option.mem_filter_iff.mp inside
  obtain ⟨given, _⟩ := Option.mem_filter_iff.mp zooms
  rw [← visibleZooming] at inside
  have made' : ∀ q ∈ zooming phase, q.Constructed := fun q inside =>
    made q (Option.mem_filter_iff.mp inside).1
  exact ⟨given, zooms, (visibleLasts made' p inside).2⟩

omit [Reading] in
theorem riseInside {p : Phase Rat} (lasting : 0 < p.duration) :
    0 < p.rise ∧ 0 < p.duration - p.rise := by
  unfold Phase.rise
  constructor <;> linarith

theorem zoomEntryValue (exact : PowersExact) {t : Timeline Rat} {p : Phase Rat} (base : Rat)
    (lasting : 0 < p.duration) (passes : t.inProgress = Timeline.progress t.start p.duration) :
    ∃ e, zoomEntry t p base = .ok e ∧ ∀ scope now, eval scope time = .ok now →
      eval scope e = .ok (p.grown t.start base now) := by
  cases peak : p.overshoot with
  | none =>
    obtain ⟨share, shareBuilt, shareValue⟩ := Timeline.easedValue exact t.start p lasting
    obtain ⟨e, built, value⟩ :=
      interpolateValue (.const (p.zoomFrom * base)) share (.const (p.zoomTo * base))
    refine ⟨e, by simp [zoomEntry, peak, passes, shareBuilt, built], fun scope now hnow => ?_⟩
    simp only [Phase.grown, peak]
    exact value scope _ _ _ rfl (shareValue scope now hnow) rfl
  | some factor =>
    obtain ⟨rises, settles⟩ := riseInside lasting
    obtain ⟨risen, risenBuilt, risenValue⟩ := Timeline.progressValue t.start rises
    obtain ⟨curved, curvedBuilt, curvedValue⟩ :=
      (p.easing.getD .easeOut).curveValue exact risen
    obtain ⟨rising, risingBuilt, risingValue⟩ :=
      interpolateValue (.const (p.zoomFrom * base)) curved (.const (factor * base))
    obtain ⟨settled, settledBuilt, settledValue⟩ :=
      Timeline.progressValue (t.start + p.rise) settles
    obtain ⟨settling, settlingBuilt, settlingValue⟩ :=
      interpolateValue (.const (factor * base)) settled (.const (p.zoomTo * base))
    have share : (riseShare : Rat) = 7 / 10 := by norm_num [riseShare]
    refine ⟨(time.lt (.const (t.start + p.rise))).cond rising settling, ?_, ?_⟩
    · unfold Phase.rise at *
      simp [zoomEntry, peak, share, risenBuilt, curvedBuilt, risingBuilt, settledBuilt,
        settlingBuilt]
    · intro scope now hnow
      simp only [Phase.grown, peak]
      refine condBelowValue hnow rfl ?_
      split_ifs
      · exact risingValue scope _ _ _ rfl (curvedValue scope _ (risenValue scope now hnow)) rfl
      · exact settlingValue scope _ _ _ rfl (settledValue scope now hnow) rfl

theorem zoomExitValue (exact : PowersExact) {t : Timeline Rat} {p : Phase Rat} (rest base : Rat)
    (lasting : 0 < p.duration)
    (passes : t.outProgress = Timeline.progress t.holdEnd p.duration) :
    ∃ e, (do ofFault (interpolate (.const rest) (← Timeline.eased t.outProgress p)
        (.const (p.zoomFrom * base)))) = .ok e ∧
      ∀ scope now, eval scope time = .ok now →
        eval scope e = .ok (p.shrunk rest t.holdEnd base now) := by
  obtain ⟨share, shareBuilt, shareValue⟩ := Timeline.easedValue exact t.holdEnd p lasting
  obtain ⟨e, built, value⟩ := interpolateValue (.const rest) share (.const (p.zoomFrom * base))
  refine ⟨e, by simp [passes, shareBuilt, built], fun scope now hnow => ?_⟩
  exact value scope _ _ _ rfl (shareValue scope now hnow) rfl

theorem zoomSizeValue (exact : PowersExact) (start base : Rat)
    {animation : Option (Animation Rat)} (made : ∀ a ∈ animation, a.Constructed) :
    ∃ size, zoomSize? start animation base = .ok size ∧ ∀ scope now,
      eval scope time = .ok now → Option.Rel (fun e v => eval scope e = .ok v) size
        (sizeMachine start animation base now) := by
  cases animation with
  | none => exact ⟨none, rfl, fun _ _ _ => .none⟩
  | some a =>
    have parts := made a rfl
    cases zooms : (zooming a.entry).or (zooming a.exit) with
    | none =>
      refine ⟨none, ?_, fun scope now _ => ?_⟩
      · unfold zooming at zooms
        simp [zoomSize?, zooms]
      · simp [sizeMachine, zooms]
    | some resting =>
      set rest := resting.zoomTo * base with restIs
      obtain ⟨t, built⟩ := Timeline.exactBuilds start none (some a)
      have began : t.start = start := by cases built; rfl
      have runs := Timeline.builtRuns built
      obtain ⟨coming, comingBuilt, comes⟩ := optionMapOk
        (o := lasting (zooming a.entry)) (f := fun p => zoomEntry t p base)
        (P := fun p e => ∀ scope now, eval scope time = .ok now →
          eval scope e = .ok (p.grown start base now)) fun p inside => by
            obtain ⟨given, _, lasts⟩ := lastingZooming parts.entry p inside
            have passes := runs.entering p given
            rw [← began] at passes ⊢
            exact zoomEntryValue exact base lasts passes
      obtain ⟨going, goingBuilt, goes⟩ := optionMapOk
        (o := lasting (zooming a.exit)) (f := fun p => do
          ofFault (interpolate (.const rest) (← Timeline.eased t.outProgress p)
            (.const (p.zoomFrom * base))))
        (P := fun p e => ∀ scope now, eval scope time = .ok now →
          eval scope e = .ok (p.shrunk rest t.holdEnd base now)) fun p inside => by
            obtain ⟨given, _, lasts⟩ := lastingZooming parts.exit p inside
            exact zoomExitValue exact rest base lasts (runs.exiting p given)
      refine ⟨some (t.piecewise coming (.const rest) going), ?_, fun scope now hnow => ?_⟩
      · rw [← visibleZooming] at comingBuilt goingBuilt
        unfold zooming at zooms comingBuilt goingBuilt
        simp only [zoomSize?, zooms, built, ofFaultOk, okBind, comingBuilt, exactMul, okMap,
          ← restIs, goingBuilt, pureIsOk]
      · rw [sizeMachine]
        simp only [Option.bind_eq_bind, Option.bind_some, zooms, ← runs.inEnd, ← runs.holdEnd]
        exact .some (t.piecewiseValue hnow rfl
          (Timeline.relValues comes fun p e value => value scope now hnow)
          (Timeline.relValues goes fun p e value => value scope now hnow))

end OverlayMotion
