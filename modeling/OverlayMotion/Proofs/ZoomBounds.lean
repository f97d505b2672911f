import OverlayMotion.Proofs.Course

/-! How far a size goes. A size takes no value outside those that its factors give it: the
entry's own ones, or the resting factor of an exit that zooms alone, and the factor that an
exit ends with. An entry may go through a peak on its way, and the peak is above the rest, so
a size does turn back there, once. -/
namespace OverlayMotion

open OverlayMotion.Expr

theorem partwayWithin {low high first last share : Rat} (from? : first ∈ Set.Icc low high)
    (to? : last ∈ Set.Icc low high) (range : 0 ≤ share ∧ share ≤ 1) :
    partway first last share ∈ Set.Icc low high :=
  Set.uIcc_subset_Icc from? to? (partwayInside range)

theorem scaledWithin {low high factor base : Rat} (positive : 0 ≤ base)
    (inside : factor ∈ Set.Icc low high) :
    factor * base ∈ Set.Icc (low * base) (high * base) :=
  ⟨mul_le_mul_of_nonneg_right inside.1 positive, mul_le_mul_of_nonneg_right inside.2 positive⟩

namespace Phase
variable {p : Phase Rat} {began base now peak : Rat}

theorem grownRising (given : p.overshoot = some peak) (lasts : 0 < p.duration)
    (before : now ≤ began + p.rise) : p.grown began base now =
      partway (p.zoomFrom * base) (peak * base)
        (eased (p.easing.getD .easeOut) began p.rise now) := by
  rcases before.lt_or_eq with early | rfl
  · simp only [grown, given, if_pos early, eased]
  · rw [easedAfter _ (riseInside lasts).1 le_rfl, partwayEnd]
    simp only [grown, given, lt_irrefl, if_false, sub_self, zero_div, limitedLow le_rfl,
      partwayStart]

theorem grownSettling (given : p.overshoot = some peak) (after : began + p.rise ≤ now) :
    p.grown began base now = partway (peak * base) (p.zoomTo * base)
      (eased .linear (began + p.rise) (p.duration - p.rise) now) := by
  simp only [grown, given, if_neg after.not_gt, eased, Easing.share]

theorem grownPlain (absent : p.overshoot = none) : p.grown began base now =
    partway (p.zoomFrom * base) (p.zoomTo * base) (p.covered began now) := by
  simp only [grown, absent]

theorem grownBefore (lasts : 0 < p.duration) (before : now ≤ began) :
    p.grown began base now = p.zoomFrom * base := by
  cases peaks : p.overshoot with
  | none => rw [grownPlain peaks, coveredEased, easedBefore _ lasts before, partwayStart]
  | some peak =>
    have rises := (riseInside lasts).1
    rw [grownRising peaks lasts (by linarith), easedBefore _ rises before, partwayStart]

theorem grownWithin {low high : Rat} (positive : 0 ≤ base) (lasts : 0 < p.duration)
    (bounds : ∀ factor ∈ p.zoomFrom :: p.zoomTo :: p.overshoot.toList,
      factor ∈ Set.Icc low high) :
    p.grown began base now ∈ Set.Icc (low * base) (high * base) := by
  have scaled {factor : Rat} := @scaledWithin low high factor base positive
  obtain ⟨first, rest, more⟩ := by simpa only [List.forall_mem_cons] using bounds
  cases peaks : p.overshoot with
  | none =>
    rw [grownPlain peaks]
    exact partwayWithin (scaled first) (scaled rest) (coveredRange p _ _)
  | some peak =>
    have summit := more peak (by rw [peaks]; exact List.mem_singleton_self peak)
    rcases le_total now (began + p.rise) with before | after
    · rw [grownRising peaks lasts before]
      exact partwayWithin (scaled first) (scaled summit) (easedRange _)
    · rw [grownSettling peaks after]
      exact partwayWithin (scaled summit) (scaled rest) (easedRange _)

end Phase

structure Sized (t : Timeline Rat) (base rest : Rat) (size : Rat → Rat) : Prop where
  growing : ∀ p ∈ t.entry, p.effect = .zoom → ∀ now ≤ t.inEnd,
    size now = p.grown t.start base now
  resting : ∀ now ∈ Set.Icc t.inEnd t.holdEnd, size now = rest
  shrinking : ∀ p ∈ t.exit, p.effect = .zoom → ∀ now, t.holdEnd ≤ now →
    size now = p.shrunk rest t.holdEnd base now
  throughout : ∀ P : Rat → Prop, P rest →
    (∀ p ∈ t.entry, p.effect = .zoom → ∀ now, P (p.grown t.start base now)) →
    (∀ p ∈ t.exit, p.effect = .zoom → ∀ now, P (p.shrunk rest t.holdEnd base now)) →
    ∀ now, P (size now)

def Animation.factors (a : Animation Rat) : List Rat :=
  (match zooming a.entry with
    | some p => p.zoomFrom :: p.zoomTo :: p.overshoot.toList
    | none => (zooming a.exit).toList.map Phase.zoomTo) ++
  (zooming a.exit).toList.map Phase.zoomFrom

theorem zoomingMember {phase : Option (Phase Rat)} {p : Phase Rat} :
    p ∈ zooming phase ↔ p ∈ phase ∧ p.effect = .zoom := by
  rw [zooming, Option.mem_filter_iff, beq_iff_eq]

section
variable [Reading]

theorem shownEntry {start : Rat} {finish : Option Rat} {a : Animation Rat} {t : Timeline Rat}
    {p : Phase Rat} (made : a.Constructed) (built : Timeline.build start finish (some a) = .ok t)
    (shown : p ∈ t.entry) (zoom : p.effect = .zoom) :
    p ∈ zooming a.entry ∧ p.Constructed := by
  rw [(Timeline.builtRuns built).entry] at shown
  have given := (visibleLasts made.entry p shown).1
  exact ⟨zoomingMember.mpr ⟨given, zoom⟩, made.entry p given⟩

theorem shownExit {start : Rat} {finish : Option Rat} {a : Animation Rat} {t : Timeline Rat}
    {p : Phase Rat} (made : a.Constructed) (built : Timeline.build start finish (some a) = .ok t)
    (shown : p ∈ t.exit) (zoom : p.effect = .zoom) : p ∈ zooming a.exit := by
  rw [(Timeline.builtRuns built).exit] at shown
  exact zoomingMember.mpr ⟨(visibleLasts made.exit p shown).1, zoom⟩

theorem lastingPieces (f : Phase Rat → Rat → Rat) (now : Rat) (phase : Option (Phase Rat)) :
    (lasting (zooming phase)).map (fun p => f p now) =
      ((Phase.visible? phase).bind fun p =>
        if p.effect = .zoom then some (f p) else none).map (· now) := by
  rw [← visibleZooming]
  cases phase with
  | none => rfl
  | some p =>
    by_cases zoom : p.effect = .zoom <;> by_cases still : p.isDegenerate <;>
      simp [zooming, Phase.visible?, Option.filter_some, zoom, still]

theorem sizeFollows {start : Rat} (base : Rat) {finish : Option Rat} {a : Animation Rat}
    {t : Timeline Rat} {resting : Phase Rat} (made : a.Constructed)
    (built : Timeline.build start finish (some a) = .ok t)
    (zooms : (zooming a.entry).or (zooming a.exit) = some resting) :
    ∃ size, Sized t base (resting.zoomTo * base) size ∧
      ∀ now, sizeMachine start (some a) base now = some (size now) := by
  have runs := Timeline.builtRuns built
  have spans := Timeline.builtSpans made built
  obtain rfl : t.start = start := by cases built; rfl
  let pieces : Pieces t (resting.zoomTo * base) := {
    coming := fun p => if p.effect = .zoom then some fun now => p.grown t.start base now else none
    going := fun p => if p.effect = .zoom then
      some fun now => p.shrunk (resting.zoomTo * base) t.holdEnd base now else none
    arrives := by
      intro p shown f inside
      obtain ⟨zoom, same⟩ := Option.ite_none_right_eq_some.mp inside
      obtain rfl := Option.some.inj same
      obtain ⟨lasts, ends⟩ := spans.entering p shown
      -- The rest has the factor of the entry, if that is what zooms.
      rw [Option.mem_def.mp (shownEntry made built shown zoom).1] at zooms
      obtain rfl := Option.some.inj zooms
      simp only [ends, p.grownEnd base lasts]
    departs := by
      intro p _ g inside
      obtain ⟨_, same⟩ := Option.ite_none_right_eq_some.mp inside
      obtain rfl := Option.some.inj same
      simp only [Phase.shrunk, p.coveredStart, partwayStart] }
  refine ⟨(pieces.course spans).value, ⟨?_, ?_, ?_, ?_⟩, fun now => ?_⟩
  · intro p shown zoom now before
    exact pieces.comes spans shown (if_pos zoom) before
  · rintro now ⟨after, before⟩
    exact (pieces.course spans).holding after before
  · intro p shown zoom now after
    exact pieces.goes spans shown (if_pos zoom) after
  · intro P rest comes goes
    refine pieces.throughout spans rest (fun p shown f inside => ?_) fun p shown g inside => ?_
    · obtain ⟨zoom, same⟩ := Option.ite_none_right_eq_some.mp inside
      exact Option.some.inj same ▸ comes p shown zoom
    · obtain ⟨zoom, same⟩ := Option.ite_none_right_eq_some.mp inside
      exact Option.some.inj same ▸ goes p shown zoom
  · have coming := lastingPieces (fun p now => p.grown t.start base now) now a.entry
    have going := lastingPieces
      (fun p now => p.shrunk (resting.zoomTo * base) t.holdEnd base now) now a.exit
    simp only [sizeMachine, Option.bind_eq_bind, Option.bind_some, zooms, ← runs.inEnd,
      ← runs.holdEnd, coming, going, ← runs.entry, ← runs.exit]
    rfl

theorem Phase.Constructed.factors {p : Phase Rat} (made : p.Constructed) :
    0 < p.zoomFrom ∧ 0 < p.zoomTo ∧ ∀ peak ∈ p.overshoot, p.zoomTo < peak := by
  obtain ⟨away, rest, peaks⟩ := made.scales
  refine ⟨by simpa using away, by simpa using rest, fun peak given => ?_⟩
  simpa using peaks peak given

theorem Animation.Constructed.factorsPositive {a : Animation Rat} (made : a.Constructed) :
    ∀ factor ∈ a.factors, 0 < factor := by
  have exit {p : Phase Rat} (zooms : p ∈ (zooming a.exit).toList) : p.Constructed :=
    made.exit p (zoomingMember.mp (Option.mem_toList.mp zooms)).1
  refine List.forall_mem_append.mpr ⟨?_, ?_⟩
  · cases zooms : zooming a.entry with
    | none =>
      refine List.forall_mem_map.mpr fun p inside => ?_
      exact (exit inside).factors.2.1
    | some p =>
      obtain ⟨away, rest, peaks⟩ := (made.entry p (zoomingMember.mp zooms).1).factors
      refine List.forall_mem_cons.mpr ⟨away, List.forall_mem_cons.mpr ⟨rest, fun peak given => ?_⟩⟩
      exact rest.trans (peaks peak (Option.mem_toList.mp given))
  · refine List.forall_mem_map.mpr fun p inside => ?_
    exact (exit inside).factors.1

omit [Reading] in
theorem Animation.enteringFactors {a : Animation Rat} {p : Phase Rat}
    (zooms : p ∈ zooming a.entry) :
    ∀ factor ∈ p.zoomFrom :: p.zoomTo :: p.overshoot.toList, factor ∈ a.factors := by
  intro factor inside
  rw [factors, Option.mem_def.mp zooms]
  exact List.mem_append_left _ inside

omit [Reading] in
theorem Animation.leavingFactor {a : Animation Rat} {p : Phase Rat}
    (zooms : p ∈ zooming a.exit) : p.zoomFrom ∈ a.factors :=
  List.mem_append_right _ (List.mem_map_of_mem (Option.mem_toList.mpr zooms))

omit [Reading] in
theorem Animation.restingFactor {a : Animation Rat} {p : Phase Rat}
    (zooms : (zooming a.entry).or (zooming a.exit) = some p) : p.zoomTo ∈ a.factors := by
  cases entry : zooming a.entry with
  | none =>
    rw [entry, Option.none_or] at zooms
    rw [factors, entry]
    exact List.mem_append_left _ (List.mem_map_of_mem (Option.mem_toList.mpr zooms))
  | some q =>
    rw [entry] at zooms
    obtain rfl := Option.some.inj zooms
    exact enteringFactors entry _ (List.mem_cons_of_mem _ List.mem_cons_self)

structure SizeProfile (a : Animation Rat) (t : Timeline Rat) (base : Rat) (size : Rat → Rat) :
    Prop where
  positive : ∀ now, 0 < size now
  range : ∃ low ∈ a.factors.min?, ∃ high ∈ a.factors.max?,
    ∀ now, size now ∈ Set.Icc (low * base) (high * base)
  entering : ∀ p ∈ t.entry, p.effect = .zoom → (∀ now ≤ t.start, size now = p.zoomFrom * base) ∧
    ∀ now ∈ Set.Icc t.inEnd t.holdEnd, size now = p.zoomTo * base
  peaking : ∀ p ∈ t.entry, p.effect = .zoom → ∀ peak ∈ p.overshoot,
    let summit := t.start + p.duration * riseShare
    size summit = peak * base ∧
      Steady size (p.zoomFrom * base) (peak * base) (Set.Iic summit) ∧
      AntitoneOn size (Set.Icc summit t.inEnd)
  exiting : ∀ p ∈ t.exit, p.effect = .zoom → ∀ now, t.outEnd ≤ now →
    size now = p.zoomFrom * base

section
variable {start base : Rat} {finish : Option Rat} {a : Animation Rat} {t : Timeline Rat}
  {resting p : Phase Rat} {size : Rat → Rat}

theorem Sized.peaking (sized : Sized t base (resting.zoomTo * base) size) (spans : t.Spans)
    (positive : 0 < base) (made : p.Constructed) (shown : p ∈ t.entry) (zoom : p.effect = .zoom)
    {peak : Rat} (given : peak ∈ p.overshoot) :
    size (t.start + p.rise) = peak * base ∧
      Steady size (p.zoomFrom * base) (peak * base) (Set.Iic (t.start + p.rise)) ∧
      AntitoneOn size (Set.Icc (t.start + p.rise) t.inEnd) := by
  obtain ⟨lasts, ends⟩ := spans.entering p shown
  obtain ⟨rises, settles⟩ := riseInside lasts
  have inside : t.start + p.rise ≤ t.inEnd := by linarith
  have grows {now : Rat} (before : now ≤ t.inEnd) := sized.growing p shown zoom now before
  have rising {now : Rat} (before : now ≤ t.start + p.rise) :=
    (grows (before.trans inside)).trans (Phase.grownRising given lasts before)
  have settling {now : Rat} (span : now ∈ Set.Icc (t.start + p.rise) t.inEnd) :=
    (grows span.2).trans (Phase.grownSettling given span.1)
  refine ⟨?_, ?_, ?_⟩
  · rw [rising le_rfl, easedAfter _ rises le_rfl, partwayEnd]
  · exact (partwaySteady (easedMonotone _ rises) _).congr fun now before => rising before
  · refine ((partwaySteady (easedMonotone _ settles) _).congr fun now span => settling span).2 ?_
    exact mul_le_mul_of_nonneg_right (made.factors.2.2 peak given).le positive.le

theorem Sized.bounded (made : a.Constructed)
    (built : Timeline.build start finish (some a) = .ok t)
    (zooms : (zooming a.entry).or (zooming a.exit) = some resting) (positive : 0 ≤ base)
    (sized : Sized t base (resting.zoomTo * base) size) {low high : Rat}
    (within : ∀ factor ∈ a.factors, factor ∈ Set.Icc low high) (now : Rat) :
    size now ∈ Set.Icc (low * base) (high * base) := by
  have rests := scaledWithin positive (within _ (Animation.restingFactor zooms))
  refine sized.throughout _ rests ?_ ?_ now
  · intro p shown zoom now
    have lasts := ((Timeline.builtSpans made built).entering p shown).1
    have entry := (shownEntry made built shown zoom).1
    refine Phase.grownWithin positive lasts fun factor inside => ?_
    exact within factor (Animation.enteringFactors entry factor inside)
  · intro p shown zoom now
    have exit := Animation.leavingFactor (shownExit made built shown zoom)
    exact partwayWithin rests (scaledWithin positive (within _ exit)) (coveredRange p _ _)

theorem sizeProfile (made : a.Constructed)
    (built : Timeline.build start finish (some a) = .ok t)
    (zooms : (zooming a.entry).or (zooming a.exit) = some resting) (positive : 0 < base)
    (sized : Sized t base (resting.zoomTo * base) size) : SizeProfile a t base size := by
  have spans := Timeline.builtSpans made built
  have some := List.ne_nil_of_mem (Animation.restingFactor zooms)
  obtain ⟨low, least⟩ := Option.isSome_iff_exists.mp (List.isSome_min?_iff.mpr some)
  obtain ⟨high, greatest⟩ := Option.isSome_iff_exists.mp (List.isSome_max?_iff.mpr some)
  have bounded := sized.bounded made built zooms positive.le fun factor inside =>
    ⟨(List.min?_eq_some_iff.mp least).2 factor inside,
      (List.max?_eq_some_iff.mp greatest).2 factor inside⟩
  refine ⟨fun now => ?_, ⟨low, least, high, greatest, bounded⟩,
    fun p shown zoom => ⟨fun now early => ?_, fun now inside => ?_⟩,
    fun p shown zoom peak given => ?_, fun p shown zoom now late => ?_⟩
  · have above := made.factorsPositive low (List.min?_eq_some_iff.mp least).1
    exact (mul_pos above positive).trans_le (bounded now).1
  · obtain ⟨lasts, ends⟩ := spans.entering p shown
    rw [sized.growing p shown zoom now (by linarith), Phase.grownBefore lasts early]
  · -- The entry comes first, so the size rests where it arrives.
    have first := Option.mem_def.mp (shownEntry made built shown zoom).1
    rw [first] at zooms
    obtain rfl := Option.some.inj zooms
    exact sized.resting now inside
  · have share : (riseShare : Rat) = 7 / 10 := by norm_num [riseShare]
    rw [share]
    exact sized.peaking spans positive (shownEntry made built shown zoom).2 shown zoom given
  · obtain ⟨lasts, ends⟩ := spans.exiting p shown
    rw [ends] at late
    rw [sized.shrinking p shown zoom now (by linarith), Phase.shrunk, coveredEased,
      easedAfter _ lasts late, partwayEnd]

end

/-- An animation with a phase that zooms has a size, which follows its profile: positive, within
the values of its factors at every time, and exactly at a factor wherever a phase begins, peaks
or ends. -/
theorem zoomKeepsBounds (exact : PowersExact) (start : Rat) {base : Rat} {a : Animation Rat}
    (made : a.Constructed) (zooms : ∃ p, (p ∈ a.entry ∨ p ∈ a.exit) ∧ p.effect = .zoom)
    (positive : 0 < base) :
    ∃ e t size, zoomSize? start (some a) base = .ok (some e) ∧
      Timeline.build start none (some a) = .ok t ∧
      (∀ scope now, eval scope time = .ok now → eval scope e = .ok (size now)) ∧
      SizeProfile a t base size := by
  obtain ⟨t, built⟩ := Timeline.exactBuilds start none (some a)
  obtain ⟨resting, rests⟩ : ∃ p, (zooming a.entry).or (zooming a.exit) = some p := by
    obtain ⟨p, given | given, zoom⟩ := zooms
    · exact ⟨p, by rw [Option.mem_def.mp (zoomingMember.mpr ⟨given, zoom⟩), Option.some_or]⟩
    · rw [Option.mem_def.mp (zoomingMember.mpr ⟨given, zoom⟩)]
      exact Option.isSome_iff_exists.mp (by rw [Option.isSome_or, Option.isSome_some, Bool.or_true])
  obtain ⟨size, sized, follows⟩ := sizeFollows base made built rests
  obtain ⟨tree, compiled, values⟩ := zoomSizeValue exact start base made.alone
  simp only [follows] at values
  cases tree with
  | none => cases values (Scope.constants.extend [("t", 0)]) 0 rfl
  | some e =>
    refine ⟨e, t, size, compiled, built, fun scope now hnow => ?_,
      sizeProfile made built rests positive sized⟩
    cases values scope now hnow with
    | some value => exact value

end

def bounceThenShrink : Animation Rat :=
  ⟨some ⟨.zoom, 2, none, 1 / 5, 1, some (6 / 5)⟩, 1, some ⟨.zoom, 1, some .easeIn, 1 / 2, 2, none⟩⟩

theorem bounceThenShrinkKeepsBounds :
    letI := naturalPowers
    ∃ e size, zoomSize? 0 (some bounceThenShrink) 60 = .ok (some e) ∧
      (∀ scope now, eval scope time = .ok now → eval scope e = .ok (size now)) ∧
      (∀ now, 12 ≤ size now ∧ size now ≤ 72) ∧ (∀ now ≤ 0, size now = 12) ∧
      size (7 / 5) = 72 ∧ AntitoneOn size (Set.Icc (7 / 5) 2) ∧
      (∀ now ∈ Set.Icc 2 3, size now = 60) ∧ ∀ now, 4 ≤ now → size now = 30 := by
  let _ := naturalPowers
  have made : bounceThenShrink.Constructed := by decide +kernel
  obtain ⟨e, t, size, compiled, timed, values, profile⟩ := @zoomKeepsBounds naturalPowers
    naturalPowersExact 0 60 bounceThenShrink made ⟨_, .inl rfl, rfl⟩ (by norm_num)
  have began : t.start = 0 := by cases timed; rfl
  have arrived : t.inEnd = 2 := by cases timed; decide +kernel
  have leaves : t.holdEnd = 3 := by cases timed; decide +kernel
  have gone : t.outEnd = 4 := by cases timed; decide +kernel
  let bounce : Phase Rat := ⟨.zoom, 2, none, 1 / 5, 1, some (6 / 5)⟩
  let shrink : Phase Rat := ⟨.zoom, 1, some .easeIn, 1 / 2, 2, none⟩
  have comes : bounce ∈ t.entry := by
    rw [(Timeline.builtRuns timed).entry]
    exact visibleGiven rfl (two_ne_zero (α := Rat)) (by decide)
  have goes : shrink ∈ t.exit := by
    rw [(Timeline.builtRuns timed).exit]
    exact visibleGiven rfl (one_ne_zero (α := Rat)) (by decide)
  obtain ⟨low, least, high, greatest, range⟩ := profile.range
  obtain rfl : low = 1 / 5 := Option.mem_unique least (by decide +kernel)
  obtain rfl : high = 6 / 5 := Option.mem_unique greatest (by decide +kernel)
  obtain ⟨before, rests⟩ := profile.entering bounce comes rfl
  obtain ⟨peaks, _, sinks⟩ := profile.peaking bounce comes rfl (6 / 5) rfl
  have after := profile.exiting shrink goes rfl
  have summit : t.start + bounce.duration * riseShare = 7 / 5 := by
    rw [began]
    decide +kernel
  rw [summit] at peaks sinks
  rw [began] at before
  rw [arrived] at rests sinks
  rw [leaves] at rests
  rw [gone] at after
  norm_num [bounce, shrink] at range before peaks rests after
  exact ⟨e, size, compiled, values, range, before, peaks, sinks,
    fun now inside => rests now inside.1 inside.2, after⟩

end OverlayMotion
