import OverlayMotion.Proofs.Construction
import OverlayMotion.Proofs.Progress

/-! The machine that compiled positions and opacities follow, over exact rationals:

    t < inEnd     entering, by an entry that concerns the quantity
    holdEnd ≤ t   exiting, by an exit that does, unless an entry still shows
    otherwise     at rest

It is written down apart from the expressions; that the compiled trees have its values is
what the compiler is for. Sizes and the idle float are not part of it. -/
namespace OverlayMotion

def Phase.given? (ways : Effect → Option (Rat → Rat)) (began now : Rat) (p : Phase Rat) :
    Option Rat :=
  if p.duration = 0 ∨ p.effect = .none then none
  else (ways p.effect).map fun way => way (p.covered began now)

def machine (start : Rat) (animation : Option (Animation Rat))
    (entering exiting : Effect → Option (Rat → Rat)) (rest now : Rat) : Rat :=
  match animation with
  | none => rest
  | some a =>
    let inEnd := start + (a.entry.map Phase.duration).getD 0
    let holdEnd := inEnd + a.hold
    let coming := if now < inEnd then a.entry.bind (Phase.given? entering start now) else none
    let going := if holdEnd ≤ now then a.exit.bind (Phase.given? exiting holdEnd now) else none
    (coming.or going).getD rest

structure Frame where
  canvas : Rat × Rat
  object : Rat × Rat
  time : Rat

def Axis.origin? (f : Frame) : Axis → Effect → Option Rat
  | horizontal, .slideLeft => some f.canvas.1
  | horizontal, .slideRight => some (-f.object.1)
  | vertical, .slideUp => some f.canvas.2
  | vertical, .slideDown => some (-f.object.2)
  | _, _ => none

def Axis.destination? (f : Frame) : Axis → Effect → Option Rat
  | horizontal, .slideLeft => some (-f.object.1)
  | horizontal, .slideRight => some f.canvas.1
  | vertical, .slideUp => some (-f.object.2)
  | vertical, .slideDown => some f.canvas.2
  | _, _ => none

def slidMachine (axis : Axis) (start : Rat) (animation : Option (Animation Rat)) (rest : Rat)
    (f : Frame) : Rat :=
  machine start animation
    (fun effect => (axis.origin? f effect).map fun offset share =>
      offset + share * (rest - offset))
    (fun effect => (axis.destination? f effect).map fun target share =>
      rest + share * (target - rest))
    rest f.time

def fadedMachine (start : Rat) (animation : Option (Animation Rat)) (f : Frame) : Rat :=
  machine start animation
    (fun effect => if effect = .fade then some fun share => share else none)
    (fun effect => if effect = .fade then some fun share => 1 - share else none)
    1 f.time

def Fades (animation : Option (Animation Rat)) : Prop :=
  ∃ a ∈ animation, ∃ p, (p ∈ a.entry ∨ p ∈ a.exit) ∧ p.duration ≠ 0 ∧ p.effect = .fade

def Frame.scope (f : Frame) (isCaption : Bool) (outer : Expr.Scope Rat) : Expr.Scope Rat :=
  outer.extend ((symbolsFor isCaption).bind f.canvas f.object ++ [("t", f.time)])

def Frame.at (f : Frame) (now : Rat) : Frame := { f with time := now }

section
variable [Reading]

inductive Rests (scope : Expr.Scope Rat) (centered : Rat) : Option (Operand Rat) → Rat → Prop
  | centered : Rests scope centered none centered
  | given {operand e v} : operand.toExpr = .ok e → Expr.eval scope e = .ok v →
      Rests scope centered (some operand) v

open OverlayMotion.Expr

structure Sees (s : Symbols) (f : Frame) (scope : Scope Rat) : Prop where
  time : eval scope time = .ok f.time
  canvasWidth : eval scope (.var s.canvasWidth) = .ok f.canvas.1
  canvasHeight : eval scope (.var s.canvasHeight) = .ok f.canvas.2
  objectWidth : eval scope (.var s.objectWidth) = .ok f.object.1
  objectHeight : eval scope (.var s.objectHeight) = .ok f.object.2

theorem Frame.sees (f : Frame) (isCaption : Bool) (outer : Scope Rat) :
    Sees (symbolsFor isCaption) f (f.scope isCaption outer) := by
  cases isCaption <;> exact ⟨rfl, rfl, rfl, rfl, rfl⟩

theorem visiblePhase (p : Phase Rat) : Phase.visible? (some p) =
    if p.duration = 0 ∨ p.effect = .none then none else some p := by
  simp only [Phase.visible?, Phase.isDegenerate, Option.filter_some, exactIsZero]
  split_ifs <;> simp_all

theorem givenVisible (ways : Effect → Option (Rat → Rat)) (began now : Rat)
    (phase : Option (Phase Rat)) :
    phase.bind (Phase.given? ways began now) =
      (Phase.visible? phase).bind fun p =>
        (ways p.effect).map fun way => way (p.covered began now) := by
  cases phase with
  | none => rfl
  | some p =>
    rw [visiblePhase, Option.bind_some, Phase.given?]
    split_ifs <;> rfl

theorem visibleLasts {phase : Option (Phase Rat)} (made : ∀ p ∈ phase, p.Constructed) :
    ∀ p ∈ Phase.visible? phase, p ∈ phase ∧ 0 < p.duration := by
  intro p shown
  cases phase with
  | none => cases shown
  | some q =>
    rw [visiblePhase] at shown
    split_ifs at shown with degenerate
    · cases shown
    · cases shown
      have nonnegative := (made p rfl).duration
      simp at nonnegative
      exact ⟨rfl, lt_of_le_of_ne nonnegative fun zero => degenerate (.inl zero.symm)⟩

namespace Timeline

theorem movingValue (exact : PowersExact) {phase : Option (Phase Rat)}
    {passed : Except Fault (Expr Rat)} {began : Rat} (made : ∀ p ∈ phase, p.Constructed)
    (passes : ∀ p ∈ phase, passed = progress began p.duration)
    (ends? : Effect → Option (Expr Rat × Expr Rat)) :
    ∃ e?, moving (Phase.visible? phase) passed ends? = .ok e? ∧
      ∀ scope now ways, eval scope time = .ok now →
        (∀ effect, Option.Rel (fun ends way => ∃ u v, eval scope ends.1 = .ok u ∧
          eval scope ends.2 = .ok v ∧ way = fun share => u + share * (v - u))
          (ends? effect) (ways effect)) →
        Option.Rel (fun e v => eval scope e = .ok v) e?
          (phase.bind (Phase.given? ways began now)) := by
  have lasts := visibleLasts made
  simp only [givenVisible]
  cases shown : Phase.visible? phase with
  | none => exact ⟨none, rfl, fun _ _ _ _ _ => .none⟩
  | some p =>
    obtain ⟨given, lasting⟩ := lasts p shown
    cases way : ends? p.effect with
    | none =>
      refine ⟨none, by simp [moving, Option.bindM, way], fun scope now ways _ follows => ?_⟩
      have still := follows p.effect
      rw [way] at still
      cases h : ways p.effect with
      | none => simp [h]
      | some _ => rw [h] at still; cases still
    | some ends =>
      obtain ⟨share, shareBuilt, shareValue⟩ := easedValue exact began p lasting
      obtain ⟨e, built, value⟩ := interpolateValue ends.1 share ends.2
      rw [← passes p given] at shareBuilt
      refine ⟨some e, by simp [moving, Option.bindM, way, shareBuilt, built], ?_⟩
      intro scope now ways hnow follows
      have moved := follows p.effect
      rw [way] at moved
      cases h : ways p.effect with
      | none => rw [h] at moved; cases moved
      | some _ =>
        rw [h] at moved
        cases moved with
        | some related =>
          obtain ⟨u, v, hu, hv, rfl⟩ := related
          simpa [h] using value scope u _ v hu (shareValue scope now hnow) hv

structure Runs (start : Rat) (a : Animation Rat) (t : Timeline Rat) : Prop where
  inEnd : t.inEnd = start + (a.entry.map Phase.duration).getD 0
  holdEnd : t.holdEnd = t.inEnd + a.hold
  entry : t.entry = Phase.visible? a.entry
  exit : t.exit = Phase.visible? a.exit
  entering : ∀ p ∈ a.entry, t.inProgress = progress start p.duration
  exiting : ∀ p ∈ a.exit, t.outProgress = progress t.holdEnd p.duration

theorem exactBuilds (start : Rat) (finish : Option Rat) (animation : Option (Animation Rat)) :
    ∃ t, build start finish animation = .ok t := by
  cases animation <;> exact ⟨_, rfl⟩

theorem builtRuns {start : Rat} {finish : Option Rat} {a : Animation Rat} {t : Timeline Rat}
    (built : build start finish (some a) = .ok t) : Runs start a t := by
  cases built
  refine ⟨?_, rfl, rfl, rfl, ?_, ?_⟩
  · cases h : a.entry <;> simp [Animation.inDuration, h]
  · intro p given
    have lasting : a.inDuration = p.duration := by
      rw [Animation.inDuration, Option.mem_def.mp given]
    simp [inProgress, lasting]
  · intro p given
    have lasting : a.outDuration = p.duration := by
      rw [Animation.outDuration, Option.mem_def.mp given]
    simp [outProgress, lasting]

theorem Runs.machine {start : Rat} {a : Animation Rat} {t : Timeline Rat} (runs : Runs start a t)
    (entering exiting : Effect → Option (Rat → Rat)) (rest now : Rat) :
    machine start (some a) entering exiting rest now =
      ((if now < t.inEnd then a.entry.bind (Phase.given? entering start now) else none).or
        (if t.holdEnd ≤ now then a.exit.bind (Phase.given? exiting t.holdEnd now)
          else none)).getD rest := by
  simp only [OverlayMotion.machine, runs.holdEnd, runs.inEnd]

section
variable {s : Symbols} {f : Frame} {scope : Scope Rat} {rest : Expr Rat} {r : Rat}

theorem originsFollow (sees : Sees s f scope) (resting : eval scope rest = .ok r) (axis : Axis)
    (effect : Effect) :
    Option.Rel (fun ends way => ∃ u v, eval scope ends.1 = .ok u ∧ eval scope ends.2 = .ok v ∧
        way = fun share => u + share * (v - u))
      ((axis.entryOffset? s effect).map fun offset => (offset, rest))
      ((axis.origin? f effect).map fun offset share => offset + share * (r - offset)) := by
  cases axis <;> cases effect <;> first
    | exact .none
    | exact .some ⟨_, _, sees.canvasWidth, resting, rfl⟩
    | exact .some ⟨_, _, sees.canvasHeight, resting, rfl⟩
    | exact .some ⟨_, _, evalNeg.mpr ⟨_, sees.objectWidth, rfl⟩, resting, rfl⟩
    | exact .some ⟨_, _, evalNeg.mpr ⟨_, sees.objectHeight, rfl⟩, resting, rfl⟩

theorem destinationsFollow (sees : Sees s f scope) (resting : eval scope rest = .ok r)
    (axis : Axis) (effect : Effect) :
    Option.Rel (fun ends way => ∃ u v, eval scope ends.1 = .ok u ∧ eval scope ends.2 = .ok v ∧
        way = fun share => u + share * (v - u))
      ((axis.exitTarget? s effect).map fun target => (rest, target))
      ((axis.destination? f effect).map fun target share => r + share * (target - r)) := by
  cases axis <;> cases effect <;> first
    | exact .none
    | exact .some ⟨_, _, resting, sees.canvasWidth, rfl⟩
    | exact .some ⟨_, _, resting, sees.canvasHeight, rfl⟩
    | exact .some ⟨_, _, resting, evalNeg.mpr ⟨_, sees.objectWidth, rfl⟩, rfl⟩
    | exact .some ⟨_, _, resting, evalNeg.mpr ⟨_, sees.objectHeight, rfl⟩, rfl⟩

end

theorem positionValue (exact : PowersExact) {start : Rat} {finish : Option Rat}
    {animation : Option (Animation Rat)} {t : Timeline Rat}
    (made : ∀ a ∈ animation, a.Constructed) (built : build start finish animation = .ok t)
    (axis : Axis) (s : Symbols) (rest : Expr Rat) :
    ∃ e, t.position axis s rest = .ok e ∧ ∀ scope f r, Sees s f scope →
      eval scope rest = .ok r →
      eval scope e = .ok (slidMachine axis start animation r f) := by
  cases animation with
  | none => cases built; exact ⟨rest, rfl, fun _ _ _ _ resting => resting⟩
  | some a =>
    have parts := made a rfl
    have runs := builtRuns built
    obtain ⟨coming, comingBuilt, comes⟩ := movingValue exact parts.entry runs.entering
      fun effect => (axis.entryOffset? s effect).map fun offset => (offset, rest)
    obtain ⟨going, goingBuilt, goes⟩ := movingValue exact parts.exit runs.exiting
      fun effect => (axis.exitTarget? s effect).map fun target => (rest, target)
    refine ⟨t.piecewise coming rest going, ?_, ?_⟩
    · simp only [position, runs.entry, runs.exit, comingBuilt, goingBuilt, okBind, pureIsOk]
    · intro scope f r sees resting
      rw [slidMachine, runs.machine]
      exact t.piecewiseValue sees.time resting
        (comes scope f.time _ sees.time (originsFollow sees resting axis))
        (goes scope f.time _ sees.time (destinationsFollow sees resting axis))

def fading (phase : Option (Phase Rat)) : Option (Phase Rat) :=
  (Phase.visible? phase).filter fun p => p.effect == .fade

theorem fadingGiven (way : Rat → Rat) (began now : Rat) (phase : Option (Phase Rat)) :
    phase.bind (Phase.given? (fun effect => if effect = .fade then some way else none)
        began now) =
      (fading phase).map fun p => way (p.covered began now) := by
  rw [givenVisible, fading]
  cases Phase.visible? phase with
  | none => rfl
  | some p => by_cases fades : p.effect = .fade <;> simp [fades]

theorem fadingMember {phase : Option (Phase Rat)} {p : Phase Rat} :
    p ∈ fading phase ↔ p ∈ phase ∧ p.duration ≠ 0 ∧ p.effect = .fade := by
  cases phase with
  | none => simp [fading, Phase.visible?]
  | some q =>
    rw [fading, visiblePhase]
    split_ifs with degenerate
    · refine Iff.intro (fun inside => by cases inside) ?_
      rintro ⟨same, lasting, fades⟩
      cases same
      rcases degenerate with zero | still
      · exact absurd zero lasting
      · rw [fades] at still
        cases still
    · constructor
      · intro inside
        obtain ⟨same, fades⟩ := Option.mem_filter_iff.mp inside
        cases same
        exact ⟨rfl, fun zero => degenerate (.inl zero), by simpa using fades⟩
      · rintro ⟨same, _, fades⟩
        exact Option.mem_filter_iff.mpr ⟨same, by simp [fades]⟩

theorem fadesFading (a : Animation Rat) :
    Fades (some a) ↔ ((fading a.entry).isNone && (fading a.exit).isNone) = false := by
  rw [Bool.and_eq_false_iff, Option.isNone_eq_false_iff, Option.isNone_eq_false_iff,
    Option.isSome_iff_exists, Option.isSome_iff_exists]
  constructor
  · rintro ⟨_, same, p, given, lasting, fades⟩
    cases same
    rcases given with first | last
    · exact .inl ⟨p, fadingMember.mpr ⟨first, lasting, fades⟩⟩
    · exact .inr ⟨p, fadingMember.mpr ⟨last, lasting, fades⟩⟩
  · rintro (⟨p, first⟩ | ⟨p, last⟩)
    · obtain ⟨given, lasting, fades⟩ := fadingMember.mp (Option.mem_def.mpr first)
      exact ⟨a, rfl, p, .inl given, lasting, fades⟩
    · obtain ⟨given, lasting, fades⟩ := fadingMember.mp (Option.mem_def.mpr last)
      exact ⟨a, rfl, p, .inr given, lasting, fades⟩

theorem relValues {scope : Scope Rat} {P : Phase Rat → Expr Rat → Prop} {g : Phase Rat → Rat}
    {phase : Option (Phase Rat)} {tree : Option (Expr Rat)} (related : Option.Rel P phase tree)
    (values : ∀ p e, P p e → eval scope e = .ok (g p)) :
    Option.Rel (fun e v => eval scope e = .ok v) tree (phase.map g) := by
  cases related with
  | none => exact .none
  | some value => exact .some (values _ _ value)

theorem fadingLasts {phase : Option (Phase Rat)} (made : ∀ p ∈ phase, p.Constructed) :
    ∀ p ∈ fading phase, p ∈ phase ∧ 0 < p.duration := fun p fades =>
  visibleLasts made p (Option.mem_filter_iff.mp fades).1

theorem fadeInValue (exact : PowersExact) {start : Rat} {a : Animation Rat} {t : Timeline Rat}
    (made : a.Constructed) (runs : Runs start a t) :
    ∃ coming, ((fading a.entry).mapM fun p => eased t.inProgress p) = .ok coming ∧
      Option.Rel (fun p e => ∀ scope now, eval scope time = .ok now →
        eval scope e = .ok (p.covered start now)) (fading a.entry) coming := by
  refine optionMapOk fun p fades => ?_
  obtain ⟨given, lasting⟩ := fadingLasts made.entry p fades
  rw [runs.entering p given]
  exact easedValue exact start p lasting

theorem fadeOutValue (exact : PowersExact) {start : Rat} {a : Animation Rat} {t : Timeline Rat}
    (made : a.Constructed) (runs : Runs start a t) :
    ∃ going, ((fading a.exit).mapM fun p => do
        ofFault ((ofInt 1).sub (← eased t.outProgress p))) = .ok going ∧
      Option.Rel (fun p e => ∀ scope now, eval scope time = .ok now →
        eval scope e = .ok (1 - p.covered t.holdEnd now)) (fading a.exit) going := by
  refine optionMapOk fun p fades => ?_
  obtain ⟨given, lasting⟩ := fadingLasts made.exit p fades
  obtain ⟨share, shareBuilt, shareValue⟩ := easedValue exact t.holdEnd p lasting
  obtain ⟨e, built, value⟩ := differenceValue (ofInt 1) share
  rw [runs.exiting p given]
  refine ⟨e, by simp [shareBuilt, built], fun scope now hnow => ?_⟩
  exact value scope _ _ (evalOfInt scope _) (shareValue scope now hnow)

theorem opacityValue (exact : PowersExact) {start : Rat} {finish : Option Rat}
    {animation : Option (Animation Rat)} {t : Timeline Rat}
    (made : ∀ a ∈ animation, a.Constructed) (built : build start finish animation = .ok t) :
    ∃ alpha, t.opacity? = .ok alpha ∧ (alpha = none ↔ ¬ Fades animation) ∧
      ∀ scope f, eval scope time = .ok f.time → ∀ e ∈ alpha,
        eval scope e = .ok (fadedMachine start animation f) := by
  cases animation with
  | none => cases built; exact ⟨none, rfl, by simp [Fades], by simp⟩
  | some a =>
    have parts := made a rfl
    have runs := builtRuns built
    obtain ⟨coming, comingBuilt, comes⟩ := fadeInValue exact parts runs
    obtain ⟨going, goingBuilt, goes⟩ := fadeOutValue exact parts runs
    have entry : t.entry.filter (fun p => p.effect == .fade) = fading a.entry := by
      rw [runs.entry, fading]
    have exit : t.exit.filter (fun p => p.effect == .fade) = fading a.exit := by
      rw [runs.exit, fading]
    simp only [opacity?, entry, exit, fadesFading]
    cases neither : (fading a.entry).isNone && (fading a.exit).isNone with
    | true => exact ⟨none, rfl, by simp, by simp⟩
    | false =>
      refine ⟨some (t.piecewise coming (ofInt 1) going), ?_, by simp, ?_⟩
      · simp [comingBuilt, goingBuilt]
      · intro scope f hnow e same
        cases same
        rw [fadedMachine, runs.machine, fadingGiven, fadingGiven]
        refine t.piecewiseValue hnow (evalOfInt scope _) ?_ ?_
        · exact relValues comes fun p e value => value scope f.time hnow
        · exact relValues goes fun p e value => value scope f.time hnow

end Timeline

theorem centeredValue (canvas object : String) :
    ∃ e : Expr Rat, (do (← (Expr.var canvas).sub (.var object)).div (.ofInt 2)) = .ok e ∧
      ∀ scope u v, eval scope (.var canvas) = .ok u → eval scope (.var object) = .ok v →
        eval scope e = .ok ((u - v) / 2) := by
  obtain ⟨room, roomBuilt, roomValue⟩ := differenceValue (.var canvas) (.var object)
  obtain ⟨e, built, value⟩ := quotientValue room (ofInt 2)
  refine ⟨e, by simp [roomBuilt, built], fun scope u v hu hv => ?_⟩
  exact value scope _ 2 (roomValue scope u v hu hv) (evalOfInt scope _) two_ne_zero

theorem restingValue {c : Option (Operand Rat)} {centered : Except Fault (Expr Rat)}
    {middle : Expr Rat} (legible : ∀ o ∈ c, ∃ e, o.toExpr = .ok e)
    (built : centered = .ok middle) :
    ∃ e, Motion.restingAt c centered = .ok e ∧ ∀ scope center r,
      eval scope middle = .ok center → Rests scope center c r → eval scope e = .ok r := by
  cases c with
  | none =>
    refine ⟨middle, by simp [Motion.restingAt, built, ofNumbers], ?_⟩
    intro scope center r value rests
    cases rests
    exact value
  | some o =>
    obtain ⟨e, tree⟩ := legible o rfl
    refine ⟨e, tree, fun scope center r _ rests => ?_⟩
    cases rests with
    | given same value =>
      rw [tree] at same
      cases same
      exact value

theorem Timeline.restedValue (exact : PowersExact) {start : Rat} {finish : Option Rat}
    {animation : Option (Animation Rat)} {t : Timeline Rat} {c : Option (Operand Rat)}
    (made : ∀ a ∈ animation, a.Constructed) (timed : build start finish animation = .ok t)
    (axis : Axis) (s : Symbols) (canvas object : String)
    (legible : ∀ o ∈ c, ∃ e, o.toExpr = .ok e) :
    ∃ tree e, Motion.restingAt c (do (← (Expr.var canvas).sub (.var object)).div (.ofInt 2)) =
        .ok tree ∧ t.position axis s tree = .ok e ∧
      ∀ scope f u v r, Sees s f scope → eval scope (.var canvas) = .ok u →
        eval scope (.var object) = .ok v → Rests scope ((u - v) / 2) c r →
        eval scope e = .ok (slidMachine axis start animation r f) := by
  obtain ⟨middle, centered, centers⟩ := centeredValue canvas object
  obtain ⟨tree, resting, rests⟩ := restingValue legible centered
  obtain ⟨e, moved, moves⟩ := t.positionValue exact made timed axis s tree
  refine ⟨tree, e, resting, moved, fun scope f u v r sees hu hv rested => ?_⟩
  exact moves scope f r sees (rests scope _ r (centers scope u v hu hv) rested)

theorem Motion.partsCompiled {start : Rat} {finish : Option Rat}
    {animation : Option (Animation Rat)} {x y : Option (Operand Rat)} {isCaption : Bool}
    {treeX treeY slidX slidY : Expr Rat} {alpha : Option (Expr Rat)} {t : Timeline Rat}
    (restingX : restingAt x (symbolsFor isCaption).centeredX = .ok treeX)
    (restingY : restingAt y (symbolsFor isCaption).centeredY = .ok treeY)
    (timed : Timeline.build start finish animation = .ok t)
    (movedX : t.position .horizontal (symbolsFor isCaption) treeX = .ok slidX)
    (movedY : t.position .vertical (symbolsFor isCaption) treeY = .ok slidY)
    (faded : t.opacity? = .ok alpha) :
    (ofOperands start finish animation x y isCaption).outcome =
      .ok ⟨t.enable, slidX, slidY, alpha⟩ := by
  have observed : ((Timeline.observed start finish animation).mapError
      (Error.fault : Fault → Error Rat)).outcome = .ok t := by
    rw [Logged.mapErrorOutcome, mapErrorOk, Timeline.observedOutcome]
    exact timed
  have compiled : compile t (symbolsFor isCaption) treeX treeY =
      .ok ⟨t.enable, slidX, slidY, alpha⟩ := by
    simp only [compile, movedX, movedY, faded, okBind, pureIsOk]
  exact Logged.bindOk.mpr ⟨treeX, restingX, Logged.bindOk.mpr ⟨treeY, restingY,
    Logged.bindOk.mpr ⟨t, observed, mapErrorOk.mpr compiled⟩⟩⟩

/-- The compiler follows the machine: it succeeds, the opacity is left out only when no
phase fades, and in every frame in which both resting coordinates have values the compiled
trees have those of the machine. -/
theorem Motion.followsMachine (exact : PowersExact) {start : Rat} {finish : Option Rat}
    {animation : Option (Animation Rat)} {x y : Option (Operand Rat)} {isCaption : Bool}
    (made : ∀ a ∈ animation, a.Constructed)
    (legibleX : ∀ o ∈ x, ∃ e, o.toExpr = .ok e) (legibleY : ∀ o ∈ y, ∃ e, o.toExpr = .ok e) :
    ∃ m, (Motion.ofOperands start finish animation x y isCaption).outcome = .ok m ∧
      (m.alpha = none ↔ ¬ Fades animation) ∧
      ∀ (f : Frame) (outer : Scope Rat) (restX restY : Rat),
        Rests (f.scope isCaption outer) ((f.canvas.1 - f.object.1) / 2) x restX →
        Rests (f.scope isCaption outer) ((f.canvas.2 - f.object.2) / 2) y restY →
        eval (f.scope isCaption outer) m.x =
            .ok (slidMachine .horizontal start animation restX f) ∧
          eval (f.scope isCaption outer) m.y =
            .ok (slidMachine .vertical start animation restY f) ∧
          ∀ alpha ∈ m.alpha, eval (f.scope isCaption outer) alpha =
            .ok (fadedMachine start animation f) := by
  let s := symbolsFor isCaption
  obtain ⟨t, timed⟩ := Timeline.exactBuilds start finish animation
  obtain ⟨treeX, slidX, restingX, movedX, slidesX⟩ :=
    Timeline.restedValue exact made timed .horizontal s s.canvasWidth s.objectWidth legibleX
  obtain ⟨treeY, slidY, restingY, movedY, slidesY⟩ :=
    Timeline.restedValue exact made timed .vertical s s.canvasHeight s.objectHeight legibleY
  obtain ⟨alpha, faded, absent, fades⟩ := Timeline.opacityValue exact made timed
  refine ⟨_, partsCompiled restingX restingY timed movedX movedY faded, absent, ?_⟩
  intro f outer restX restY restsX restsY
  have sees := f.sees isCaption outer
  exact ⟨slidesX _ f _ _ restX sees sees.canvasWidth sees.objectWidth restsX,
    slidesY _ f _ _ restY sees sees.canvasHeight sees.objectHeight restsY,
    fades _ f sees.time⟩

theorem Rests.legible {scope : Scope Rat} {centered r : Rat} {c : Option (Operand Rat)}
    (rests : Rests scope centered c r) : ∀ o ∈ c, ∃ e, o.toExpr = .ok e := by
  rintro o same
  cases rests with
  | centered => cases same
  | given tree _ =>
    cases same
    exact ⟨_, tree⟩

theorem Motion.followed (exact : PowersExact) (start : Rat) (finish : Option Rat)
    {animation : Option (Animation Rat)} {x y : Option (Operand Rat)} {isCaption : Bool}
    {outer : Scope Rat} {stage : Frame} {restX restY : Rat}
    (made : ∀ a ∈ animation, a.Constructed)
    (restsX : ∀ now, Rests ((stage.at now).scope isCaption outer)
      ((stage.canvas.1 - stage.object.1) / 2) x restX)
    (restsY : ∀ now, Rests ((stage.at now).scope isCaption outer)
      ((stage.canvas.2 - stage.object.2) / 2) y restY) :
    ∃ m, (Motion.ofOperands start finish animation x y isCaption).outcome = .ok m ∧
      ∀ now, eval ((stage.at now).scope isCaption outer) m.x =
          .ok (slidMachine .horizontal start animation restX (stage.at now)) ∧
        eval ((stage.at now).scope isCaption outer) m.y =
          .ok (slidMachine .vertical start animation restY (stage.at now)) ∧
        ∀ alpha ∈ m.alpha, eval ((stage.at now).scope isCaption outer) alpha =
          .ok (fadedMachine start animation (stage.at now)) := by
  let s := symbolsFor isCaption
  obtain ⟨t, timed⟩ := Timeline.exactBuilds start finish animation
  obtain ⟨treeX, slidX, restingX, movedX, slidesX⟩ := Timeline.restedValue exact made timed
    .horizontal s s.canvasWidth s.objectWidth (restsX 0).legible
  obtain ⟨treeY, slidY, restingY, movedY, slidesY⟩ := Timeline.restedValue exact made timed
    .vertical s s.canvasHeight s.objectHeight (restsY 0).legible
  obtain ⟨alpha, faded, _, fades⟩ := Timeline.opacityValue exact made timed
  refine ⟨_, partsCompiled restingX restingY timed movedX movedY faded, fun now => ?_⟩
  have sees := (stage.at now).sees isCaption outer
  exact ⟨slidesX _ _ _ _ restX sees sees.canvasWidth sees.objectWidth (restsX now),
    slidesY _ _ _ _ restY sees sees.canvasHeight sees.objectHeight (restsY now),
    fades _ _ sees.time⟩

end

@[reducible] def naturalPowers : Reading where
  sin _ := 0
  cos _ := .error .outsideDomain
  sqrt _ := .error .outsideDomain
  pow x y := if y.den = 1 ∧ 0 ≤ y.num then .ok (x ^ y.num.toNat) else .error .powerNotReal
  powOne x := by simp

theorem naturalPowersExact : @PowersExact naturalPowers := fun x n =>
  if_pos (by simp) |>.trans (by simp)

def slideThenFade : Animation Rat :=
  ⟨some ⟨.slideLeft, 2, some .easeOut, 1 / 5, 1, none⟩, 3, some ⟨.fade, 1, none, 1 / 5, 1, none⟩⟩

theorem slideThenFadeFollows :
    letI := naturalPowers
    let frame : Frame := ⟨(1080, 1920), (200, 50), 1⟩
    ∃ m, (Motion.ofOperands 0 (some 6) (some slideThenFade) (some (.number 100)) none
        true).outcome = .ok m ∧ m.alpha ≠ none ∧
      Expr.eval (frame.scope true Expr.Scope.constants) m.x = .ok (445 / 2) ∧
      Expr.eval (frame.scope true Expr.Scope.constants) m.y = .ok 935 := by
  let _ := naturalPowers
  intro frame
  have made : ∀ a ∈ some slideThenFade, a.Constructed := by
    rintro _ ⟨⟩
    decide +kernel
  obtain ⟨m, compiled, absent, follows⟩ := @Motion.followsMachine naturalPowers
    naturalPowersExact 0 (some 6) (some slideThenFade) (some (.number 100)) none true made
    (fun o same => ⟨.const 100, by cases same; rfl⟩) (fun o same => by cases same)
  obtain ⟨x, y, _⟩ := follows frame Expr.Scope.constants 100 _ (.given rfl rfl) .centered
  have slid : slidMachine .horizontal 0 (some slideThenFade) 100 frame = 445 / 2 := by
    decide +kernel
  have still : slidMachine .vertical 0 (some slideThenFade)
      ((frame.canvas.2 - frame.object.2) / 2) frame = 935 := by
    decide +kernel
  refine ⟨m, compiled, fun none => ?_, slid ▸ x, still ▸ y⟩
  exact absent.mp none ⟨_, rfl, _, .inr rfl, by decide +kernel, rfl⟩

end OverlayMotion
