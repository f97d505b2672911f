import OverlayMotion.Proofs.Course

/-! Positions and opacities neither turn back within a phase nor leave the values between
which it takes them. A slide goes from its edge of the canvas to the rest, or from the rest
to its edge; a fade from nothing to all, or back. This holds for every easing, because none
turns back or leaves the unit interval; where the way itself leads, up or down, is a matter of
its two ends. -/
namespace OverlayMotion

open OverlayMotion.Expr

structure Phased (t : Timeline Rat) (entering exiting : Effect → Option (Rat → Rat)) (rest : Rat)
    (f : Rat → Rat) : Prop where
  coming : ∀ p ∈ t.entry, ∀ way ∈ entering p.effect, ∀ now ≤ t.inEnd,
    f now = way (p.covered t.start now)
  going : ∀ p ∈ t.exit, ∀ way ∈ exiting p.effect, ∀ now, t.holdEnd ≤ now →
    f now = way (p.covered t.holdEnd now)
  spans : t.Spans
  waiting : (∀ p ∈ t.entry, entering p.effect = none) → ∀ now ≤ t.holdEnd, f now = rest
  staying : (∀ p ∈ t.exit, exiting p.effect = none) → ∀ now, t.inEnd ≤ now → f now = rest
  throughout : ∀ P : Rat → Prop, P rest →
    (∀ p ∈ t.entry, ∀ way ∈ entering p.effect, ∀ share, 0 ≤ share ∧ share ≤ 1 → P (way share)) →
    (∀ p ∈ t.exit, ∀ way ∈ exiting p.effect, ∀ share, 0 ≤ share ∧ share ≤ 1 → P (way share)) →
    ∀ now, P (f now)

namespace Phased
variable {t : Timeline Rat} {entering exiting : Effect → Option (Rat → Rat)} {rest : Rat}
  {f : Rat → Rat} {p : Phase Rat} {way : Rat → Rat}

theorem before (phased : Phased t entering exiting rest f) (shown : p ∈ t.entry)
    (effective : way ∈ entering p.effect) {now : Rat} (early : now ≤ t.start) : f now = way 0 := by
  obtain ⟨lasts, ends⟩ := phased.spans.entering p shown
  have inside : now ≤ t.inEnd := by linarith
  rw [phased.coming p shown way effective now inside, coveredEased, easedBefore _ lasts early]

theorem arrived (phased : Phased t entering exiting rest f) (shown : p ∈ t.entry)
    (effective : way ∈ entering p.effect) : f t.inEnd = way 1 := by
  obtain ⟨lasts, ends⟩ := phased.spans.entering p shown
  rw [phased.coming p shown way effective _ le_rfl, ends, p.coveredEnd lasts]

theorem departed (phased : Phased t entering exiting rest f) (shown : p ∈ t.exit)
    (effective : way ∈ exiting p.effect) : f t.holdEnd = way 0 := by
  rw [phased.going p shown way effective _ le_rfl, p.coveredStart]

theorem after (phased : Phased t entering exiting rest f) (shown : p ∈ t.exit)
    (effective : way ∈ exiting p.effect) {now : Rat} (late : t.outEnd ≤ now) : f now = way 1 := by
  obtain ⟨lasts, ends⟩ := phased.spans.exiting p shown
  rw [ends] at late
  have inside : t.holdEnd ≤ now := by linarith
  rw [phased.going p shown way effective now inside, coveredEased, easedAfter _ lasts late]

theorem comingSteady (phased : Phased t entering exiting rest f) (shown : p ∈ t.entry)
    {first last : Rat} (effective : partway first last ∈ entering p.effect) :
    Steady f first last (Set.Iic t.inEnd) :=
  (partwaySteady (easedMonotone _ (phased.spans.entering p shown).1) _).congr fun now inside =>
    phased.coming p shown _ effective now inside

theorem goingSteady (phased : Phased t entering exiting rest f) (shown : p ∈ t.exit)
    {first last : Rat} (effective : partway first last ∈ exiting p.effect) :
    Steady f first last (Set.Ici t.holdEnd) :=
  (partwaySteady (easedMonotone _ (phased.spans.exiting p shown).1) _).congr fun now inside =>
    phased.going p shown _ effective now inside

end Phased

section
variable [Reading]

theorem pieceVisible (ways : Effect → Option (Rat → Rat)) (began : Rat)
    (phase : Option (Phase Rat)) : phase.bind (Phase.piece? ways began) =
      (Phase.visible? phase).bind fun p =>
        (ways p.effect).map fun way now => way (p.covered began now) := by
  cases phase with
  | none => rfl
  | some p =>
    rw [visiblePhase, Option.bind_some, Phase.piece?]
    split_ifs <;> rfl

theorem machinePhased {start rest : Rat} {finish : Option Rat} {a : Animation Rat}
    {t : Timeline Rat} (made : a.Constructed)
    (built : Timeline.build start finish (some a) = .ok t)
    {entering exiting : Effect → Option (Rat → Rat)}
    (arrives : ∀ effect, ∀ way ∈ entering effect, way 1 = rest)
    (departs : ∀ effect, ∀ way ∈ exiting effect, way 0 = rest) :
    Phased t entering exiting rest fun now => machine start (some a) entering exiting rest now := by
  have runs := Timeline.builtRuns built
  have spans := Timeline.builtSpans made built
  have began : t.start = start := by cases built; rfl
  let pieces : Pieces t rest := {
    coming := fun p => (entering p.effect).map fun way now => way (p.covered t.start now)
    going := fun p => (exiting p.effect).map fun way now => way (p.covered t.holdEnd now)
    arrives := by
      intro p shown f inside
      obtain ⟨way, effective, rfl⟩ := Option.map_eq_some_iff.mp inside
      obtain ⟨lasts, ends⟩ := spans.entering p shown
      simp only [ends, p.coveredEnd lasts]
      exact arrives _ way effective
    departs := by
      intro p _ g inside
      obtain ⟨way, effective, rfl⟩ := Option.map_eq_some_iff.mp inside
      simp only [p.coveredStart]
      exact departs _ way effective }
  have follows (now : Rat) :
      machine start (some a) entering exiting rest now = (pieces.course spans).value now := by
    rw [runs.machine, ← began, givenPiece, givenPiece, pieceVisible, pieceVisible, ← runs.entry,
      ← runs.exit]
    rfl
  simp only [follows]
  refine ⟨?_, ?_, spans, ?_, ?_, ?_⟩
  · intro p shown way effective now before
    exact pieces.comes spans shown (Option.map_eq_some_iff.mpr ⟨way, effective, rfl⟩) before
  · intro p shown way effective now after
    exact pieces.goes spans shown (Option.map_eq_some_iff.mpr ⟨way, effective, rfl⟩) after
  · intro none now before
    exact pieces.waits spans (fun p shown => Option.map_eq_none_iff.mpr (none p shown)) before
  · intro none now after
    exact pieces.stays spans (fun p shown => Option.map_eq_none_iff.mpr (none p shown)) after
  · intro P resting comes goes
    refine pieces.throughout spans resting (fun p shown f inside now => ?_)
      fun p shown g inside now => ?_
    · obtain ⟨way, effective, rfl⟩ := Option.map_eq_some_iff.mp inside
      exact comes p shown way effective _ (coveredRange p _ now)
    · obtain ⟨way, effective, rfl⟩ := Option.map_eq_some_iff.mp inside
      exact goes p shown way effective _ (coveredRange p _ now)

structure Travels (t : Timeline Rat) (origin destination : Effect → Option Rat) (rest : Rat)
    (course : Rat → Rat) : Prop where
  entering : ∀ p ∈ t.entry, ∀ first ∈ origin p.effect,
    (∀ now ≤ t.start, course now = first) ∧ course t.inEnd = rest ∧
      Steady course first rest (Set.Iic t.inEnd)
  exiting : ∀ p ∈ t.exit, ∀ last ∈ destination p.effect,
    course t.holdEnd = rest ∧ (∀ now, t.outEnd ≤ now → course now = last) ∧
      Steady course rest last (Set.Ici t.holdEnd)
  between : ∀ now,
    (∃ p ∈ t.entry, ∃ first ∈ origin p.effect, course now ∈ Set.uIcc first rest) ∨
    course now = rest ∨
    ∃ p ∈ t.exit, ∃ last ∈ destination p.effect, course now ∈ Set.uIcc rest last
  waiting : (∀ p ∈ t.entry, origin p.effect = none) → ∀ now ≤ t.holdEnd, course now = rest
  staying : (∀ p ∈ t.exit, destination p.effect = none) → ∀ now, t.inEnd ≤ now → course now = rest

theorem machineTravels {start rest : Rat} {finish : Option Rat} {a : Animation Rat}
    {t : Timeline Rat} (made : a.Constructed)
    (built : Timeline.build start finish (some a) = .ok t)
    (origin destination : Effect → Option Rat) :
    Travels t origin destination rest fun now => machine start (some a)
      (fun effect => (origin effect).map fun first => partway first rest)
      (fun effect => (destination effect).map fun last => partway rest last) rest now := by
  let entering (effect : Effect) : Option (Rat → Rat) :=
    (origin effect).map fun first => partway first rest
  let exiting (effect : Effect) : Option (Rat → Rat) :=
    (destination effect).map fun last => partway rest last
  have phased : Phased t entering exiting rest fun now =>
      machine start (some a) entering exiting rest now := by
    refine machinePhased made built ?_ ?_
    · intro effect way effective
      obtain ⟨first, _, rfl⟩ := Option.map_eq_some_iff.mp effective
      exact partwayEnd
    · intro effect way effective
      obtain ⟨last, _, rfl⟩ := Option.map_eq_some_iff.mp effective
      exact partwayStart
  have comes {effect : Effect} {first : Rat} (from? : first ∈ origin effect) :
      partway first rest ∈ entering effect := Option.map_eq_some_iff.mpr ⟨first, from?, rfl⟩
  have goes {effect : Effect} {last : Rat} (to? : last ∈ destination effect) :
      partway rest last ∈ exiting effect := Option.map_eq_some_iff.mpr ⟨last, to?, rfl⟩
  refine ⟨fun p shown first from? => ⟨fun now early => ?_, ?_, ?_⟩,
    fun p shown last to? => ⟨?_, fun now late => ?_, ?_⟩, ?_, fun none => ?_, fun none => ?_⟩
  · exact (phased.before shown (comes from?) early).trans partwayStart
  · exact (phased.arrived shown (comes from?)).trans partwayEnd
  · exact phased.comingSteady shown (comes from?)
  · exact (phased.departed shown (goes to?)).trans partwayStart
  · exact (phased.after shown (goes to?) late).trans partwayEnd
  · exact phased.goingSteady shown (goes to?)
  · refine phased.throughout (fun v =>
      (∃ p ∈ t.entry, ∃ first ∈ origin p.effect, v ∈ Set.uIcc first rest) ∨ v = rest ∨
      ∃ p ∈ t.exit, ∃ last ∈ destination p.effect, v ∈ Set.uIcc rest last)
      (.inr (.inl rfl)) ?_ ?_
    · intro p shown way effective share range
      obtain ⟨first, from?, rfl⟩ := Option.map_eq_some_iff.mp effective
      exact .inl ⟨p, shown, first, from?, partwayInside range⟩
    · intro p shown way effective share range
      obtain ⟨last, to?, rfl⟩ := Option.map_eq_some_iff.mp effective
      exact .inr (.inr ⟨p, shown, last, to?, partwayInside range⟩)
  · exact phased.waiting fun p shown => Option.map_eq_none_iff.mpr (none p shown)
  · exact phased.staying fun p shown => Option.map_eq_none_iff.mpr (none p shown)

end

structure SlidesSteadily (axis : Axis) (stage : Frame) (t : Timeline Rat) (rest : Rat)
    (course : Rat → Rat) : Prop where
  entering : ∀ p ∈ t.entry, ∀ offset ∈ axis.origin? stage p.effect,
    (∀ now ≤ t.start, course now = offset) ∧ course t.inEnd = rest ∧
      Steady course offset rest (Set.Iic t.inEnd)
  exiting : ∀ p ∈ t.exit, ∀ target ∈ axis.destination? stage p.effect,
    course t.holdEnd = rest ∧ (∀ now, t.outEnd ≤ now → course now = target) ∧
      Steady course rest target (Set.Ici t.holdEnd)
  between : ∀ now,
    (∃ p ∈ t.entry, ∃ offset ∈ axis.origin? stage p.effect, course now ∈ Set.uIcc offset rest) ∨
    course now = rest ∨
    ∃ p ∈ t.exit, ∃ target ∈ axis.destination? stage p.effect, course now ∈ Set.uIcc rest target

section
variable [Reading]

theorem slidSteadily (axis : Axis) (stage : Frame) {start rest : Rat} {finish : Option Rat}
    {a : Animation Rat} {t : Timeline Rat} (made : a.Constructed)
    (built : Timeline.build start finish (some a) = .ok t) :
    SlidesSteadily axis stage t rest fun now =>
      slidMachine axis start (some a) rest (stage.at now) := by
  have travels : Travels t (axis.origin? stage) (axis.destination? stage) rest fun now =>
      slidMachine axis start (some a) rest (stage.at now) :=
    machineTravels made built (axis.origin? stage) (axis.destination? stage)
  exact ⟨travels.entering, travels.exiting, travels.between⟩

end

structure FadesSteadily (t : Timeline Rat) (course : Rat → Rat) : Prop where
  range : ∀ now, 0 ≤ course now ∧ course now ≤ 1
  entering : ∀ p ∈ t.entry, p.effect = .fade →
    (∀ now ≤ t.start, course now = 0) ∧ course t.inEnd = 1 ∧ MonotoneOn course (Set.Iic t.inEnd)
  exiting : ∀ p ∈ t.exit, p.effect = .fade →
    course t.holdEnd = 1 ∧ (∀ now, t.outEnd ≤ now → course now = 0) ∧
      AntitoneOn course (Set.Ici t.holdEnd)
  waiting : (∀ p ∈ t.entry, p.effect ≠ .fade) → ∀ now ≤ t.holdEnd, course now = 1
  staying : (∀ p ∈ t.exit, p.effect ≠ .fade) → ∀ now, t.inEnd ≤ now → course now = 1

theorem fadingWays (ways : Rat → Rat → Rat) :
    (fun effect : Effect => if effect = .fade then some (ways 0) else none) =
      fun effect => (if effect = .fade then some 0 else none).map ways := by
  funext effect
  split_ifs <;> rfl

section
variable [Reading]

theorem fadedSteadily (stage : Frame) {start : Rat} {finish : Option Rat} {a : Animation Rat}
    {t : Timeline Rat} (made : a.Constructed)
    (built : Timeline.build start finish (some a) = .ok t) :
    FadesSteadily t fun now => fadedMachine start (some a) (stage.at now) := by
  let faded (effect : Effect) : Option Rat := if effect = .fade then some 0 else none
  have rising : (fun share => share) = partway 0 1 := by
    funext share
    simp [partway]
  have sinking : (fun share => 1 - share) = partway 1 0 := by
    funext share
    simp [partway, sub_eq_add_neg]
  have travels : Travels t faded faded 1 fun now => fadedMachine start (some a) (stage.at now) := by
    have comes := fadingWays fun first => partway first 1
    have goes := fadingWays fun last => partway 1 last
    simp only [fadedMachine, rising, sinking, comes, goes]
    exact machineTravels made built faded faded
  have zero {effect : Effect} (fades : effect = .fade) : 0 ∈ faded effect := if_pos fades
  have unit {effect : Effect} {v w : Rat} (given : v ∈ faded effect)
      (inside : w ∈ Set.uIcc v 1) : 0 ≤ w ∧ w ≤ 1 := by
    obtain rfl := Option.some.inj (Option.ite_none_right_eq_some.mp given).2
    rwa [Set.uIcc_of_le zero_le_one] at inside
  refine ⟨fun now => ?_, fun p shown fades => ?_, fun p shown fades => ?_, fun none => ?_,
    fun none => ?_⟩
  · obtain ⟨p, _, first, given, inside⟩ | rests | ⟨p, _, last, given, inside⟩ :=
      travels.between now
    · exact unit given inside
    · simp only [rests, zero_le_one, le_refl, and_self]
    · exact unit given (Set.uIcc_comm 1 last ▸ inside)
  · obtain ⟨before, arrives, steady⟩ := travels.entering p shown 0 (zero fades)
    exact ⟨before, arrives, steady.1 zero_le_one⟩
  · obtain ⟨leaves, after, steady⟩ := travels.exiting p shown 0 (zero fades)
    exact ⟨leaves, after, steady.2 zero_le_one⟩
  · exact travels.waiting fun p shown => if_neg (none p shown)
  · exact travels.staying fun p shown => if_neg (none p shown)

def Charted (isCaption : Bool) (outer : Scope Rat) (stage : Frame) (P : (Rat → Rat) → Prop)
    (e : Expr Rat) : Prop :=
  ∃ course : Rat → Rat, P course ∧
    ∀ now, eval ((stage.at now).scope isCaption outer) e = .ok (course now)

/-- Under every easing, the coordinates of an overlay and its opacity go steadily from one end
of each phase to the other, and at no time leave the values between these ends. -/
theorem Motion.movesSteadily (exact : PowersExact) {start : Rat} {finish : Option Rat}
    {a : Animation Rat} {x y : Option (Operand Rat)} {isCaption : Bool} {outer : Scope Rat}
    {stage : Frame} {restX restY : Rat} (made : a.Constructed)
    (restsX : ∀ now, Rests ((stage.at now).scope isCaption outer)
      ((stage.canvas.1 - stage.object.1) / 2) x restX)
    (restsY : ∀ now, Rests ((stage.at now).scope isCaption outer)
      ((stage.canvas.2 - stage.object.2) / 2) y restY) :
    ∃ m t, (Motion.ofOperands start finish (some a) x y isCaption).outcome = .ok m ∧
      Timeline.build start finish (some a) = .ok t ∧
      Charted isCaption outer stage (SlidesSteadily .horizontal stage t restX) m.x ∧
      Charted isCaption outer stage (SlidesSteadily .vertical stage t restY) m.y ∧
      ∀ alpha ∈ m.alpha, Charted isCaption outer stage (FadesSteadily t) alpha := by
  obtain ⟨m, compiled, follows⟩ := Motion.followed exact start finish made.alone restsX restsY
  obtain ⟨t, built⟩ := Timeline.exactBuilds start finish (some a)
  exact ⟨m, t, compiled, built,
    ⟨_, slidSteadily .horizontal stage made built, fun now => (follows now).1⟩,
    ⟨_, slidSteadily .vertical stage made built, fun now => (follows now).2.1⟩,
    fun alpha same => ⟨_, fadedSteadily stage made built, fun now => (follows now).2.2 alpha same⟩⟩

end

theorem slideThenFadeMovesSteadily :
    letI := naturalPowers
    let stage : Frame := ⟨(1080, 1920), (200, 50), 0⟩
    ∃ m, (Motion.ofOperands 0 (some 6) (some slideThenFade) (some (.number 100)) none
        true).outcome = .ok m ∧ m.alpha.isSome ∧
      Charted true Expr.Scope.constants stage (fun x =>
        (∀ now ≤ 0, x now = 1080) ∧ x 2 = 100 ∧ AntitoneOn x (Set.Iic 2)) m.x ∧
      ∀ alpha ∈ m.alpha, Charted true Expr.Scope.constants stage (fun share =>
        (∀ now ≤ 5, share now = 1) ∧ AntitoneOn share (Set.Ici 5) ∧ share 6 = 0) alpha := by
  let _ := naturalPowers
  intro stage
  have made : slideThenFade.Constructed := by decide +kernel
  obtain ⟨m, t, compiled, timed, ⟨x, slid, valueX⟩, _, fades⟩ :=
    @Motion.movesSteadily naturalPowers naturalPowersExact 0 (some 6) slideThenFade
      (some (.number 100)) none true Expr.Scope.constants stage 100 _ made
      (fun _ => .given rfl rfl) (fun _ => .centered)
  have fading : ∀ m, (Motion.ofOperands 0 (some 6) (some slideThenFade) (some (.number 100)) none
      true).outcome = .ok m → m.alpha.isSome := by decide +kernel
  have began : t.start = 0 := by cases timed; rfl
  have arrived : t.inEnd = 2 := by cases timed; decide +kernel
  have leaves : t.holdEnd = 5 := by cases timed; decide +kernel
  have gone : t.outEnd = 6 := by cases timed; decide +kernel
  let slide : Phase Rat := ⟨.slideLeft, 2, some .easeOut, 1 / 5, 1, none⟩
  let fade : Phase Rat := ⟨.fade, 1, none, 1 / 5, 1, none⟩
  have comes : slide ∈ t.entry := by
    rw [(Timeline.builtRuns timed).entry]
    exact visibleGiven rfl (two_ne_zero (α := Rat)) (by decide)
  have goes : fade ∈ t.exit := by
    rw [(Timeline.builtRuns timed).exit]
    exact visibleGiven rfl (one_ne_zero (α := Rat)) (by decide)
  obtain ⟨before, rests, steady⟩ := slid.entering _ comes 1080 rfl
  rw [began] at before
  rw [arrived] at rests steady
  refine ⟨m, compiled, fading m compiled, ⟨x, ⟨before, rests, steady.2 (by norm_num)⟩, valueX⟩, ?_⟩
  intro alpha same
  obtain ⟨share, faded, value⟩ := fades alpha same
  obtain ⟨_, after, sinks⟩ := faded.exiting _ goes rfl
  rw [leaves] at sinks
  refine ⟨share, ⟨fun now early => ?_, sinks, after 6 gone.le⟩, value⟩
  refine faded.waiting (fun p shown fades => ?_) now (leaves ▸ early)
  cases Option.mem_unique shown comes
  cases fades

end OverlayMotion
