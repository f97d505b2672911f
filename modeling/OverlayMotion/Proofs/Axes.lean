import OverlayMotion.Proofs.Compilation
import OverlayMotion.Proofs.Construction

/-! What one axis knows of the other. A slide moves its own axis; fades, zooms and the slides
of the other axis keep the tree that rests. Two animations in step with each other, whose
phases differ only in what an axis cannot see, give the axis the same tree. The two axes and
the opacity are compiled together, so it also takes that none of them ever stops the others:
over the numbers of a running program nothing fails once the phases have their times. -/
namespace OverlayMotion

open OverlayMotion.Expr (Varying)

def Axis.other : Axis → Axis
  | horizontal => vertical
  | vertical => horizontal

def Axis.slides : Axis → Effect → Bool
  | horizontal, .slideLeft => true
  | horizontal, .slideRight => true
  | vertical, .slideUp => true
  | vertical, .slideDown => true
  | _, _ => false

section
variable {ν : Type}

def Motion.along (m : Motion ν) : Axis → Expr ν
  | .horizontal => m.x
  | .vertical => m.y

structure Phase.AlikeOn (axis : Axis) (p q : Phase ν) : Prop where
  duration : p.duration = q.duration
  easing : p.easing = q.easing
  effect : p.effect = q.effect ∨ axis.slides p.effect = false ∧ axis.slides q.effect = false

structure Animation.AlikeOn (axis : Axis) (a b : Animation ν) : Prop where
  entry : Option.Rel (Phase.AlikeOn axis) a.entry b.entry
  hold : a.hold = b.hold
  exit : Option.Rel (Phase.AlikeOn axis) a.exit b.exit

def Animation.Slides (axis : Axis) (a : Animation ν) : Prop :=
  ∃ p, (p ∈ a.entry ∨ p ∈ a.exit) ∧ axis.slides p.effect

theorem Axis.stillEffect {axis : Axis} {effect : Effect} (still : axis.slides effect = false)
    (s : Symbols) : (axis.entryOffset? s effect : Option (Expr ν)) = none ∧
      (axis.exitTarget? s effect : Option (Expr ν)) = none := by
  cases axis <;> cases effect <;> first
    | exact ⟨rfl, rfl⟩
    | cases still

end

namespace Timeline

section
variable {ν : Type} [Number ν] {axis : Axis} {passed : Except Fault (Expr ν)}
  {ends? : Effect → Option (Expr ν × Expr ν)}

theorem movingStill {phase : Option (Phase ν)} (still : ∀ p ∈ phase, ends? p.effect = none) :
    moving phase passed ends? = .ok none := by
  cases phase with
  | none => rfl
  | some p =>
    rw [moving, Option.bindM, still p rfl]
    rfl

theorem movingAlike {p q : Option (Phase ν)} (alike : Option.Rel (Phase.AlikeOn axis) p q)
    (passed : Except Fault (Expr ν)) (ends? : Effect → Option (Expr ν × Expr ν))
    (blind : ∀ effect, axis.slides effect = false → ends? effect = none) :
    moving (Phase.visible? p) passed ends? = moving (Phase.visible? q) passed ends? := by
  cases alike with
  | none => rfl
  | @some p q same =>
    obtain ⟨duration, easing, moved | ⟨stillP, stillQ⟩⟩ := same
    · have shown : p.isDegenerate = q.isDegenerate := by
        simp only [Phase.isDegenerate, duration, moved]
      simp only [Phase.visible?, Option.filter_some, shown]
      split_ifs
      · simp only [moving, Option.bindM, eased, moved, easing]
      · rfl
    · have still {r : Phase ν} (still : axis.slides r.effect = false) :
          moving (Phase.visible? (some r)) passed ends? = .ok none := by
        refine movingStill fun r' shown => ?_
        cases (Option.mem_filter_iff.mp shown).1
        exact blind _ still
      rw [still stillP, still stillQ]

theorem buildAlike {a b : Animation ν} (alike : a.AlikeOn axis b) (start : ν) (finish : Option ν) :
    build start finish (some b) = (fun t => { t with
      entry := Phase.visible? b.entry, exit := Phase.visible? b.exit }) <$>
        build start finish (some a) := by
  have entering : a.inDuration = b.inDuration := by
    cases a
    cases b
    cases alike.entry with
    | none => rfl
    | some same => exact same.duration
  have exiting : a.outDuration = b.outDuration := by
    cases a
    cases b
    cases alike.exit with
    | none => rfl
    | some same => exact same.duration
  simp only [build, entering, alike.hold, exiting, map_bind, map_pure]

theorem positionAlike {a b : Animation ν} (alike : a.AlikeOn axis b) {start : ν} {finish : Option ν}
    {t : Timeline ν} (built : build start finish (some a) = .ok t) (s : Symbols) (rest : Expr ν) :
    t.position axis s rest = position { t with
      entry := Phase.visible? b.entry, exit := Phase.visible? b.exit } axis s rest := by
  obtain ⟨-, entry, exit, -⟩ := builtParts built
  have comes := movingAlike alike.entry t.inProgress
    (fun effect => (axis.entryOffset? s effect).map fun offset => (offset, rest))
    fun effect still => by rw [(Axis.stillEffect still s).1, Option.map_none]
  have goes := movingAlike alike.exit t.outProgress
    (fun effect => (axis.exitTarget? s effect).map fun target => (rest, target))
    fun effect still => by rw [(Axis.stillEffect still s).2, Option.map_none]
  rw [← entry] at comes
  rw [← exit] at goes
  rw [position, comes, goes]
  rfl

theorem positionStill {animation : Option (Animation ν)} {start : ν} {finish : Option ν}
    {t : Timeline ν} (built : build start finish animation = .ok t)
    (still : ∀ a ∈ animation, ¬ a.Slides axis) (s : Symbols) (rest : Expr ν) :
    t.position axis s rest = .ok rest := by
  have unmoved : (∀ p ∈ t.entry, axis.slides p.effect = false) ∧
      ∀ p ∈ t.exit, axis.slides p.effect = false := by
    cases animation with
    | none =>
      cases built
      exact ⟨by simp, by simp⟩
    | some a =>
      obtain ⟨-, entry, exit, -⟩ := builtParts built
      constructor
      · intro p shown
        rw [entry] at shown
        exact Bool.eq_false_iff.mpr fun moves =>
          still a rfl ⟨p, .inl (Option.mem_filter_iff.mp shown).1, moves⟩
      · intro p shown
        rw [exit] at shown
        exact Bool.eq_false_iff.mpr fun moves =>
          still a rfl ⟨p, .inr (Option.mem_filter_iff.mp shown).1, moves⟩
  rw [position, movingStill, movingStill]
  · rfl
  · intro p shown
    rw [(Axis.stillEffect (unmoved.2 p shown) s).2, Option.map_none]
  · intro p shown
    rw [(Axis.stillEffect (unmoved.1 p shown) s).1, Option.map_none]

end

end Timeline

namespace Expr
variable {a b e share first last : Expr Scalar}

def Portion (e : Expr Scalar) : Prop := e = ofInt 1 ∨ Varying e

theorem unfoldedLeft {compute : Scalar → Scalar → Except Fault Scalar} {otherwise : Expr Scalar}
    (varying : Varying a) : folded compute a b otherwise = .ok otherwise := by
  unfold folded
  split
  · exact absurd rfl (varying _)
  · rfl

theorem Varying.raised (varying : Varying a) (many : ¬ b.isOne) :
    ∃ e, a.pow b = .ok e ∧ Varying e := by
  refine ⟨.call "pow" [a, b], ?_, by simp [Varying]⟩
  unfold pow
  split
  · exact absurd rfl (varying _)
  · rw [if_neg many]

theorem Varying.subtracted (varying : Varying b) (some : ¬ a.isZero) :
    ∃ e, a.sub b = .ok e ∧ Varying e := by
  refine ⟨.binary .sub a b, ?_, by simp [Varying]⟩
  rw [sub, varying.unfolded, if_neg varying.notZero, if_neg some]

theorem Varying.scaled (varying : Varying b) (some : ¬ a.isZero) :
    ∃ e, a.mul b = .ok e ∧ Varying e := by
  rw [mul, varying.unfolded]
  split_ifs with zero one one'
  · rcases Bool.or_eq_true_iff.mp zero with za | zb
    · exact absurd za some
    · exact absurd zb varying.notZero
  · exact ⟨b, rfl, varying⟩
  · exact absurd one' varying.notOne
  · exact ⟨_, rfl, by simp [Varying]⟩

theorem Portion.notZero (portion : Portion e) : ¬ e.isZero := by
  obtain rfl | varying := portion
  · decide
  · exact varying.notZero

theorem Portion.left (portion : Portion e) : ∃ e', (ofInt 1).sub e = .ok e' := by
  obtain rfl | varying := portion
  · exact ⟨ofInt 0, rfl⟩
  · obtain ⟨e', built, -⟩ := varying.subtracted (a := ofInt 1) (by decide)
    exact ⟨e', built⟩

theorem Portion.curve (portion : Portion e) (easing : Easing) :
    ∃ e', easing.curve e = .ok e' ∧ Portion e' := by
  obtain rfl | varying := portion
  · cases easing <;> exact ⟨ofInt 1, rfl, .inl rfl⟩
  cases easing with
  | linear => exact ⟨e, rfl, .inr varying⟩
  | easeIn =>
    obtain ⟨cubed, built, hc⟩ := varying.raised (b := ofInt 3) (by decide)
    exact ⟨cubed, built, .inr hc⟩
  | easeOut =>
    obtain ⟨left, leftBuilt, hl⟩ := varying.subtracted (a := ofInt 1) (by decide)
    obtain ⟨cubed, cubedBuilt, hc⟩ := hl.raised (b := ofInt 3) (by decide)
    obtain ⟨e', built, he⟩ := hc.subtracted (a := ofInt 1) (by decide)
    exact ⟨e', by simp [Easing.curve, leftBuilt, cubedBuilt, built], .inr he⟩
  | easeInOut =>
    obtain ⟨squared, squaredBuilt, hs⟩ := varying.raised (b := ofInt 2) (by decide)
    obtain ⟨first, firstBuilt, hf⟩ := hs.scaled (a := ofInt 3) (by decide)
    obtain ⟨cubed, cubedBuilt, hc⟩ := varying.raised (b := ofInt 3) (by decide)
    obtain ⟨second, secondBuilt, hd⟩ := hc.scaled (a := ofInt 2) (by decide)
    obtain ⟨e', built, he⟩ := hd.subtracted hf.notZero
    refine ⟨e', ?_, .inr he⟩
    simp [Easing.curve, squaredBuilt, firstBuilt, cubedBuilt, secondBuilt, built]

theorem edgeVaries {s : Symbols} (edge : s.Edge e) : Varying e ∧ Varying (negate e) := by
  cases edge <;> exact ⟨by simp [Varying], by simp [Varying, negate]⟩

theorem edgeApart {s : Symbols} (edge : s.Edge first ∨ s.Edge last) :
    ∃ way, last.sub first = .ok way ∧ Varying way := by
  obtain edge | edge := edge
  · obtain ⟨varying, mirrored⟩ := edgeVaries edge
    rw [sub, varying.unfolded, if_neg varying.notZero]
    split_ifs
    · exact ⟨_, rfl, mirrored⟩
    · exact ⟨_, rfl, by simp [Varying]⟩
  · obtain ⟨varying, -⟩ := edgeVaries edge
    rw [sub, unfoldedLeft varying, if_neg varying.notZero]
    split_ifs
    · exact ⟨_, rfl, varying⟩
    · exact ⟨_, rfl, by simp [Varying]⟩

theorem Portion.between {s : Symbols} (portion : Portion share)
    (edge : s.Edge first ∨ s.Edge last) : ∃ e, interpolate first share last = .ok e := by
  obtain ⟨way, wayBuilt, hw⟩ := edgeApart edge
  obtain ⟨part, partBuilt, hp⟩ := hw.scaled portion.notZero
  exact ⟨_, by rw [interpolate, wayBuilt, okBind, partBuilt, okBind, add, hp.unfolded]⟩

theorem elapsedVaries (start : Scalar) : ∃ e, time.sub (.const start) = .ok e ∧ Varying e := by
  have unfolded : time.sub (.const start) =
      .ok (if (Expr.const start).isZero then time else .binary .sub time (.const start)) := rfl
  refine ⟨_, unfolded, ?_⟩
  split_ifs <;> simp [Varying, time]

theorem Varying.divided (varying : Varying a) (d : Scalar) :
    ∃ e, a.div (.const d) = .ok e ∧ Varying e := by
  rw [div, unfoldedLeft varying]
  split_ifs
  · exact ⟨_, rfl, by simp [Varying]⟩
  · exact ⟨_, rfl, varying⟩
  · exact ⟨_, rfl, by simp [Varying]⟩

theorem Varying.clamped (varying : Varying a) (low high : Expr Scalar) :
    Varying (a.clamp low high) := by
  cases a with
  | const v => exact absurd rfl (varying v)
  | _ => simp [clamp, max, min, Varying]

end Expr

theorem Scalar.takenBack {u v w : Scalar} (added : Number.add u v = .ok w) :
    ∃ z, Number.sub w u = .ok z := by
  have among (z : Float) {x : Float} (exact : u.toFloat = .ok x) :
      ∃ d, Number.sub (.float z : Scalar) u = .ok d := by
    have mixed : Number.sub (.float z : Scalar) u = (do return .float (z - (← u.toFloat))) := by
      cases u <;> rfl
    exact ⟨.float (z - x), by rw [mixed, exact]; rfl⟩
  cases u with
  | int n =>
    cases v with
    | int m =>
      cases added
      exact ⟨_, rfl⟩
    | float y =>
      obtain ⟨x, exact, rest⟩ := bindOk.mp added
      cases rest
      exact among _ exact
  | float x =>
    obtain ⟨y, -, same⟩ := bindOk.mp added
    cases same
    exact among _ rfl

namespace Timeline
variable {start : Scalar} {finish : Option Scalar} {animation : Option (Animation Scalar)}
  {t : Timeline Scalar}

theorem progressPortion (start duration : Scalar) :
    ∃ e, progress start duration = .ok e ∧ Expr.Portion e := by
  unfold progress
  split_ifs
  · exact ⟨_, rfl, .inl rfl⟩
  · obtain ⟨elapsed, elapsedBuilt, he⟩ := Expr.elapsedVaries start
    obtain ⟨share, shareBuilt, hs⟩ := he.divided duration
    refine ⟨share.clamp (.ofInt 0) (.ofInt 1), ?_, .inr (hs.clamped _ _)⟩
    rw [elapsedBuilt, okBind, shareBuilt]
    rfl

theorem easedPortion {passed : Except Fault (Expr Scalar)}
    (portion : ∃ e, passed = .ok e ∧ Expr.Portion e) (p : Phase Scalar) :
    ∃ e, eased passed p = .ok e ∧ Expr.Portion e := by
  obtain ⟨share, rfl, hs⟩ := portion
  exact hs.curve (p.easing.getD .linear)

theorem phasesPass (built : build start finish animation = .ok t) :
    (t.entry.isSome → ∃ e, t.inProgress = .ok e ∧ Expr.Portion e) ∧
      (t.exit.isSome → ∃ e, t.outProgress = .ok e ∧ Expr.Portion e) := by
  cases animation with
  | none =>
    cases built
    exact ⟨by simp, by simp⟩
  | some a =>
    simp only [build, bindOk] at built
    obtain ⟨inEnd, hin, holdEnd, -, outEnd, hout, last⟩ := built
    cases last
    obtain ⟨entering, taken⟩ := Scalar.takenBack hin
    obtain ⟨exiting, taken'⟩ := Scalar.takenBack hout
    simp only [inProgress, outProgress, taken, taken', okBind]
    exact ⟨fun _ => progressPortion _ _, fun _ => progressPortion _ _⟩

theorem movingReturns {phase : Option (Phase Scalar)} {passed : Except Fault (Expr Scalar)}
    {s : Symbols} (passes : phase.isSome → ∃ e, passed = .ok e ∧ Expr.Portion e)
    (ends? : Effect → Option (Expr Scalar × Expr Scalar))
    (edges : ∀ effect, ∀ e ∈ ends? effect, s.Edge e.1 ∨ s.Edge e.2) :
    ∃ slid, moving phase passed ends? = .ok slid := by
  cases phase with
  | none => exact ⟨none, rfl⟩
  | some p =>
    obtain ⟨share, easedBuilt, hs⟩ := easedPortion (passes rfl) p
    obtain ⟨slid, built, -⟩ := optionMapOk (o := ends? p.effect) (P := fun _ _ => True)
      (f := fun (first, last) => do
        Expr.ofFault (interpolate first (← eased passed p) last)) fun way inside => by
          obtain ⟨e, between⟩ := hs.between (edges p.effect way inside)
          exact ⟨e, by simp only [easedBuilt, okBind, between, Expr.ofFaultOk], trivial⟩
    exact ⟨slid, built⟩

theorem positionReturns (built : build start finish animation = .ok t) (axis : Axis) (s : Symbols)
    (rest : Expr Scalar) : ∃ e, t.position axis s rest = .ok e := by
  obtain ⟨entering, exiting⟩ := phasesPass built
  obtain ⟨coming, comes⟩ := movingReturns (s := s) entering
    (fun effect => (axis.entryOffset? s effect).map fun offset => (offset, rest))
    fun effect e inside => by
      obtain ⟨offset, given, rfl⟩ := Option.map_eq_some_iff.mp inside
      exact .inl (Axis.entryEdge given)
  obtain ⟨going, goes⟩ := movingReturns (s := s) exiting
    (fun effect => (axis.exitTarget? s effect).map fun target => (rest, target))
    fun effect e inside => by
      obtain ⟨target, given, rfl⟩ := Option.map_eq_some_iff.mp inside
      exact .inr (Axis.exitEdge given)
  exact ⟨t.piecewise coming rest going, by simp only [position, comes, goes, okBind, pureIsOk]⟩

theorem opacityReturns (built : build start finish animation = .ok t) :
    ∃ alpha, t.opacity? = .ok alpha := by
  obtain ⟨entering, exiting⟩ := phasesPass built
  simp only [opacity?]
  split
  · exact ⟨none, rfl⟩
  · obtain ⟨coming, comes, -⟩ := optionMapOk (P := fun _ _ => True)
      (o := t.entry.filter fun p => p.effect == .fade) (f := fun p => eased t.inProgress p)
      fun p inside => by
        have shown := Option.isSome_of_mem (Option.mem_filter_iff.mp inside).1
        obtain ⟨share, built, -⟩ := easedPortion (entering shown) p
        exact ⟨share, built, trivial⟩
    obtain ⟨going, goes, -⟩ := optionMapOk (P := fun _ _ => True)
      (o := t.exit.filter fun p => p.effect == .fade)
      (f := fun p => do Expr.ofFault ((Expr.ofInt 1).sub (← eased t.outProgress p)))
      fun p inside => by
        have shown := Option.isSome_of_mem (Option.mem_filter_iff.mp inside).1
        obtain ⟨share, built, hs⟩ := easedPortion (exiting shown) p
        obtain ⟨left, taken⟩ := hs.left
        exact ⟨left, by simp only [built, okBind, taken, Expr.ofFaultOk], trivial⟩
    exact ⟨some (t.piecewise coming (.ofInt 1) going), by simp only [comes, goes, okBind, pureIsOk]⟩

end Timeline

def Axis.centered {ν : Type} [Number ν] (s : Symbols) : Axis → Except Fault (Expr ν)
  | horizontal => s.centeredX
  | vertical => s.centeredY

def Legible (c : Option (Operand Scalar)) : Prop := ∀ o ∈ c, ∃ e, o.toExpr = .ok e

namespace Motion
variable {start : Scalar} {finish : Option Scalar} {animation : Option (Animation Scalar)}

theorem legibleRests {c : Option (Operand Scalar)} (legible : Legible c) (axis : Axis) (s : Symbols) :
    ∃ e, restingAt c (axis.centered s) = .ok e := by
  cases c with
  | none => cases axis <;> exact ⟨_, rfl⟩
  | some o => exact legible o rfl

theorem mapOfTrees {α β : Type} (f : α → β) (x : Except (Expr.Failure Scalar) α) :
    f <$> Expr.ofTrees x = Expr.ofTrees (f <$> x) := by
  cases x <;> rfl

theorem compiledAlong {t : Timeline Scalar} (built : Timeline.build start finish animation = .ok t)
    (axis : Axis) (s : Symbols) (rest : Axis → Expr Scalar) :
    (·.along axis) <$> compile t s (rest .horizontal) (rest .vertical) =
      t.position axis s (rest axis) := by
  obtain ⟨x, across⟩ := Timeline.positionReturns built .horizontal s (rest .horizontal)
  obtain ⟨y, down⟩ := Timeline.positionReturns built .vertical s (rest .vertical)
  obtain ⟨alpha, faded⟩ := Timeline.opacityReturns built
  simp only [compile, across, down, faded, okBind, pureIsOk, okMap]
  cases axis with
  | horizontal => exact across.symm
  | vertical => exact down.symm

def resting (axis : Axis) (s : Symbols) (rest : Axis → Option (Operand Scalar)) :
    Except (Expr.Error Scalar) (Expr Scalar) := do
  let x ← restingAt (rest .horizontal) (Axis.horizontal.centered s)
  let y ← restingAt (rest .vertical) (Axis.vertical.centered s)
  return match axis with
    | .horizontal => x
    | .vertical => y

theorem restingOk {axis : Axis} {s : Symbols} {rest : Axis → Option (Operand Scalar)}
    {e : Expr Scalar} (read : resting axis s rest = .ok e) :
    restingAt (rest axis) (axis.centered s) = .ok e := by
  obtain ⟨x, restsX, read⟩ := bindOk.mp read
  obtain ⟨y, restsY, same⟩ := bindOk.mp read
  cases same
  cases axis with
  | horizontal => exact restsX
  | vertical => exact restsY

theorem restingReturns (axis : Axis) (s : Symbols) {rest : Axis → Option (Operand Scalar)}
    (legible : ∀ axis, Legible (rest axis)) : ∃ e, resting axis s rest = .ok e := by
  obtain ⟨x, restsX⟩ := legibleRests (legible .horizontal) .horizontal s
  obtain ⟨y, restsY⟩ := legibleRests (legible .vertical) .vertical s
  exact ⟨_, bindOk.mpr ⟨x, restsX, bindOk.mpr ⟨y, restsY, rfl⟩⟩⟩

theorem restingAlike {axis : Axis} {rest rest' : Axis → Option (Operand Scalar)}
    (own : rest axis = rest' axis) (others : rest axis.other = rest' axis.other ∨
      Legible (rest axis.other) ∧ Legible (rest' axis.other)) (s : Symbols) :
    resting axis s rest = resting axis s rest' := by
  obtain same | ⟨legible, legible'⟩ := others
  · have alike : rest = rest' := by
      funext either
      cases axis <;> cases either <;> assumption
    rw [alike]
  · -- The tree of the other axis is dropped, so all that counts is that there is one.
    obtain ⟨e, read⟩ := legibleRests legible axis.other s
    obtain ⟨e', read'⟩ := legibleRests legible' axis.other s
    cases axis <;> simp only [Axis.other] at read read' <;>
      simp only [resting, own, read, read', okBind]

theorem alongOutcome (start : Scalar) (finish : Option Scalar)
    (animation : Option (Animation Scalar)) (axis : Axis) (rest : Axis → Option (Operand Scalar))
    (isCaption : Bool) :
    (·.along axis) <$> (ofOperands start finish animation (rest .horizontal) (rest .vertical)
        isCaption).outcome = (do
      let e ← resting axis (symbolsFor isCaption) rest
      let t ← (Timeline.build start finish animation).mapError .fault
      Expr.ofTrees (t.position axis (symbolsFor isCaption) e)) := by
  unfold ofOperands
  simp only [Logged.bindOutcome, Logged.liftOutcome, Logged.mapErrorOutcome, map_bind,
    Timeline.observedOutcome, resting, bind_assoc, pure_bind]
  refine bind_congr fun x => bind_congr fun y => ?_
  cases built : Timeline.build start finish animation with
  | error f => rfl
  | ok t =>
    have compiled := compiledAlong built axis (symbolsFor isCaption)
      (fun | .horizontal => x | .vertical => y)
    change (·.along axis) <$> Expr.ofTrees (compile t _ x y) = Expr.ofTrees _
    rw [mapOfTrees, compiled]

theorem alongAlike {axis : Axis} {a b : Animation Scalar} (alike : a.AlikeOn axis b)
    {rest rest' : Axis → Option (Operand Scalar)} (own : rest axis = rest' axis)
    (others : rest axis.other = rest' axis.other ∨
      Legible (rest axis.other) ∧ Legible (rest' axis.other)) (isCaption : Bool) :
    (·.along axis) <$> (ofOperands start finish (some a) (rest .horizontal) (rest .vertical)
        isCaption).outcome =
      (·.along axis) <$> (ofOperands start finish (some b) (rest' .horizontal) (rest' .vertical)
        isCaption).outcome := by
  rw [alongOutcome, alongOutcome, restingAlike own others]
  refine bind_congr fun e => ?_
  rw [Timeline.buildAlike alike]
  cases built : Timeline.build start finish (some a) with
  | error f => rfl
  | ok t => exact congrArg Expr.ofTrees (Timeline.positionAlike alike built _ e)

theorem alongStill {axis : Axis} (still : ∀ a ∈ animation, ¬ a.Slides axis)
    {rest : Axis → Option (Operand Scalar)} {isCaption : Bool} {m : Motion Scalar}
    (compiled : (ofOperands start finish animation (rest .horizontal) (rest .vertical)
      isCaption).outcome = .ok m) :
    restingAt (rest axis) (axis.centered (symbolsFor isCaption)) = .ok (m.along axis) := by
  have along := alongOutcome start finish animation axis rest isCaption
  rw [compiled, okMap] at along
  obtain ⟨e, rests, along⟩ := bindOk.mp along.symm
  obtain ⟨t, built, along⟩ := bindOk.mp along
  rw [Timeline.positionStill (mapErrorOk.mp built) still] at along
  cases along
  exact restingOk rests

theorem returns {t : Timeline Scalar} (built : Timeline.build start finish animation = .ok t)
    {rest : Axis → Option (Operand Scalar)} (legible : ∀ axis, Legible (rest axis))
    (isCaption : Bool) : ∃ m, (ofOperands start finish animation (rest .horizontal)
      (rest .vertical) isCaption).outcome = .ok m := by
  obtain ⟨e, rests⟩ := restingReturns .horizontal (symbolsFor isCaption) legible
  obtain ⟨slid, moved⟩ := Timeline.positionReturns built .horizontal (symbolsFor isCaption) e
  have along := alongOutcome start finish animation .horizontal rest isCaption
  obtain ⟨m, compiled, -⟩ := mapOk.mp (along.trans (bindOk.mpr ⟨e, rests,
    bindOk.mpr ⟨t, mapErrorOk.mpr built, mapErrorOk.mpr moved⟩⟩))
  exact ⟨m, compiled⟩

/-- What an axis is given depends on the phases that slide on it and on its own coordinate.
Animations in step, alike on the axis, give it the same tree, or fail with the same error,
whatever else their phases do and wherever the other axis rests. Without a slide on the axis
the tree is the one that rests. There is a tree if times can be computed and coordinates read. -/
theorem axisIndependent {axis : Axis} {a b : Animation Scalar} (alike : a.AlikeOn axis b)
    (rest rest' : Axis → Option (Operand Scalar)) (own : rest axis = rest' axis)
    (others : rest axis.other = rest' axis.other ∨
      Legible (rest axis.other) ∧ Legible (rest' axis.other))
    (start : Scalar) (finish : Option Scalar) (isCaption : Bool) :
    let compiled := (ofOperands start finish (some a) (rest .horizontal) (rest .vertical)
      isCaption).outcome
    let compiled' := (ofOperands start finish (some b) (rest' .horizontal) (rest' .vertical)
      isCaption).outcome
    (·.along axis) <$> compiled = (·.along axis) <$> compiled' ∧
    (¬ a.Slides axis → ∀ m, compiled = .ok m →
      restingAt (rest axis) (axis.centered (symbolsFor isCaption)) = .ok (m.along axis)) ∧
    (∀ t, Timeline.build start finish (some a) = .ok t → (∀ axis, Legible (rest axis)) →
      ∃ m, compiled = .ok m) := by
  refine ⟨alongAlike alike own others isCaption, fun still m compiled => ?_,
    fun t built legible => returns built legible isCaption⟩
  refine alongStill (fun a' same => ?_) compiled
  cases same
  exact still

end Motion

theorem Animation.alikeItself (axis : Axis) (a : Animation Scalar) : a.AlikeOn axis a := by
  have each (p : Option (Phase Scalar)) : Option.Rel (Phase.AlikeOn axis) p p := by
    cases p with
    | none => exact .none
    | some p => exact .some ⟨rfl, rfl, .inl rfl⟩
  exact ⟨each a.entry, rfl, each a.exit⟩

def comesAndGoes (leaving : Effect) : Animation Scalar :=
  let phase (effect : Effect) : Phase Scalar :=
    ⟨effect, .int 1, some .easeOut, .float 0.2, .int 1, none⟩
  ⟨some (phase .slideLeft), .int 3, some (phase leaving)⟩

theorem comesAndGoesIndependent :
    let at' (y : Option (Operand Scalar)) (leaving : Effect) :=
      (Motion.ofOperands (.int 2) none (some (comesAndGoes leaving)) (some (.number (.int 100))) y
        true).outcome
    ∃ faded risen, at' none .fade = .ok faded ∧ at' (some (.number (.int 7))) .slideUp = .ok risen ∧
      faded.x = risen.x ∧ Motion.restingAt none captionSymbols.centeredY = .ok faded.y := by
  intro at'
  let rest (y : Option (Operand Scalar)) : Axis → Option (Operand Scalar)
    | .horizontal => some (.number (.int 100))
    | .vertical => y
  have alike : (comesAndGoes .fade).AlikeOn .horizontal (comesAndGoes .slideUp) :=
    ⟨.some ⟨rfl, rfl, .inl rfl⟩, rfl, .some ⟨rfl, rfl, .inr ⟨rfl, rfl⟩⟩⟩
  have number (n : Int) : Legible (some (.number (.int n))) := by
    intro o same
    cases same
    exact ⟨_, rfl⟩
  have legible : ∀ axis, Legible (rest none axis)
    | .horizontal => number 100
    | .vertical => by simp [Legible, rest]
  obtain ⟨t, built⟩ : ∃ t, Timeline.build (.int 2) none (some (comesAndGoes .fade)) = .ok t :=
    ⟨_, rfl⟩
  obtain ⟨same, -, returns⟩ := Motion.axisIndependent alike (rest none)
    (rest (some (.number (.int 7)))) rfl (.inr ⟨legible .vertical, number 7⟩) (.int 2) none true
  obtain ⟨faded, compiled⟩ := returns t built legible
  rw [compiled] at same
  obtain ⟨risen, compiled', along⟩ := mapOk.mp same.symm
  obtain ⟨-, rests, -⟩ := Motion.axisIndependent (Animation.alikeItself .vertical _)
    (rest none) (rest none) rfl (.inl rfl) (.int 2) none true
  have level : ¬ (comesAndGoes .fade).Slides .vertical := by
    rintro ⟨p, given | given, moves⟩
    · cases Option.some.inj given
      cases moves
    · cases Option.some.inj given
      cases moves
  exact ⟨faded, risen, compiled, compiled', along.symm, rests level faded compiled⟩

end OverlayMotion
