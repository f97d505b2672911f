import OverlayMotion.Proofs.Fragment
import OverlayMotion.Proofs.Gradual
import OverlayMotion.Proofs.Inspection

/-! An overlay compiled beside the same overlay at another time. A relation between trees
that the builders keep, with every time in the second tree so much later, holds of all that
is compiled of the two: each easing, each phase and each quantity is related because the
trees it is put together from are. What the relation says is left to those who use it. -/
namespace OverlayMotion

open OverlayMotion.Expr

def Both {ε δ α β : Type} (R : α → β → Prop) (x : Except ε α) (y : Except δ β) : Prop :=
  ∃ a b, x = .ok a ∧ y = .ok b ∧ R a b

namespace Both
variable {ε δ α β γ κ : Type} {R : α → β → Prop} {S : γ → κ → Prop}

theorem ok {a : α} {b : β} (related : R a b) : Both R (.ok a : Except ε α) (.ok b : Except δ β) :=
  ⟨a, b, rfl, rfl, related⟩

theorem bind {x : Except ε α} {y : Except δ β} {f : α → Except ε γ} {g : β → Except δ κ}
    (h : Both R x y) (next : ∀ {a b}, R a b → Both S (f a) (g b)) :
    Both S (x >>= f) (y >>= g) := by
  obtain ⟨a, b, rfl, rfl, related⟩ := h
  exact next related

theorem mapError {ζ η : Type} {x : Except ε α} {y : Except δ β} {f : ε → ζ} {g : δ → η}
    (h : Both R x y) : Both R (x.mapError f) (y.mapError g) := by
  obtain ⟨a, b, rfl, rfl, related⟩ := h
  exact ok related

theorem option {f : α → Except ε γ} {g : β → Except δ κ} {o : Option α} {o' : Option β}
    (along : Option.Rel R o o') (each : ∀ {a b}, a ∈ o → R a b → Both S (f a) (g b)) :
    Both (Option.Rel S) (o.mapM f) (o'.mapM g) := by
  cases along with
  | none => exact ok .none
  | some related =>
    obtain ⟨c, k, first, second, made⟩ := each rfl related
    rw [Option.mapM_some, Option.mapM_some, first, second]
    exact ok (.some made)

theorem each {f : α → Except ε γ} {g : α → Except δ κ} {o : Option α}
    (made : ∀ a ∈ o, Both S (f a) (g a)) : Both (Option.Rel S) (o.mapM f) (o.mapM g) := by
  cases o with
  | none => exact ok .none
  | some a =>
    refine option (R := Eq) (.some rfl) fun inside same => ?_
    cases same
    exact made _ inside

end Both

section
variable (d : Rat)

def Timeline.delayed (t : Timeline Rat) : Timeline Rat :=
  { t with
    start := t.start + d
    inEnd := t.inEnd + d
    holdEnd := t.holdEnd + d
    outEnd := t.outEnd + d
    clampedEnd := t.clampedEnd + d }

theorem Timeline.delayedEntry (t : Timeline Rat) : (t.delayed d).entry = t.entry := rfl

theorem Timeline.delayedExit (t : Timeline Rat) : (t.delayed d).exit = t.exit := rfl

def Placement.delayed (p : Placement Rat) : Placement Rat :=
  { p with start := p.start + d, finish := p.finish + d }

def Overlay.delayed : Overlay Rat → Overlay Rat
  | .image i => .image { i with placement := i.placement.delayed d }
  | .caption c => .caption { c with placement := c.placement.delayed d }

theorem Overlay.delayedPlacement (o : Overlay Rat) :
    (o.delayed d).placement = o.placement.delayed d := by
  cases o <;> rfl

end

variable [Reading]

theorem Timeline.buildDelayed (d : Rat) {start : Rat} {finish : Option Rat}
    {animation : Option (Animation Rat)} {t : Timeline Rat}
    (built : build start finish animation = .ok t) :
    build (start + d) (finish.map (· + d)) animation = .ok (t.delayed d) := by
  cases animation with
  | none =>
    cases built
    cases finish <;> rfl
  | some a =>
    have later (x y : Rat) : x + d + y = x + y + d := add_right_comm x d y
    cases built
    cases finish with
    | none => simp [build, delayed, later]
    | some stop => simp [build, delayed, later, min_add_add_right]

structure Kept (s : Symbols) (d : Rat) (R : Expr Rat → Expr Rat → Prop) : Prop where
  const (c : Rat) : R (.const c) (.const c)
  dimension {name : String} : name ∈ s.dimensions → R (.var name) (.var name)
  elapsed (c : Rat) : Both R (time.sub (.const c)) (time.sub (.const (c + d)))
  neg {a b : Expr Rat} : R a b → R (.neg a) (.neg b)
  add {a b a' b' : Expr Rat} : R a a' → R b b' → Both R (a.add b) (a'.add b')
  sub {a b a' b' : Expr Rat} : R a a' → R b b' → Both R (a.sub b) (a'.sub b')
  mul {a b a' b' : Expr Rat} : R a a' → R b b' → Both R (a.mul b) (a'.mul b')
  div {a a' : Expr Rat} {c : Rat} : R a a' → c ≠ 0 →
    Both R (a.div (.const c)) (a'.div (.const c))
  pow {a a' : Expr Rat} (n : Nat) : R a a' → Both R (a.pow (ofInt n)) (a'.pow (ofInt n))
  sin {a a' : Expr Rat} : R a a' → Both R a.sin a'.sin
  clamp {a a' : Expr Rat} : R a a' →
    R (a.clamp (ofInt 0) (ofInt 1)) (a'.clamp (ofInt 0) (ofInt 1))
  choice {a b a' b' : Expr Rat} (c : Rat) : R a a' → R b b' →
    R ((time.lt (.const c)).cond a b) ((time.lt (.const (c + d))).cond a' b')
  window (low high : Rat) :
    R (time.between (.const low) (.const high))
      (time.between (.const (low + d)) (.const (high + d)))

namespace Kept
variable {s : Symbols} {d : Rat} {R : Expr Rat → Expr Rat → Prop} (kept : Kept s d R)
include kept

theorem whole (n : Int) : R (ofInt n) (ofInt n) := kept.const n

theorem curve {p p' : Expr Rat} (easing : Easing) (h : R p p') :
    Both R (easing.curve p) (easing.curve p') := by
  cases easing with
  | linear => exact .ok h
  | easeIn => exact kept.pow 3 h
  | easeOut =>
    refine (kept.sub (kept.whole 1) h).mapError.bind fun left => ?_
    exact (kept.pow 3 left).bind fun cubed => (kept.sub (kept.whole 1) cubed).mapError
  | easeInOut =>
    refine (kept.pow 2 h).bind fun squared => ?_
    refine (kept.mul (kept.whole 3) squared).mapError.bind fun first => ?_
    refine (kept.pow 3 h).bind fun cubed => ?_
    refine (kept.mul (kept.whole 2) cubed).mapError.bind fun second => ?_
    exact (kept.sub first second).mapError

theorem interpolate {first share last first' share' last' : Expr Rat} (hf : R first first')
    (hs : R share share') (hl : R last last') :
    Both R (interpolate first share last) (interpolate first' share' last') :=
  (kept.sub hl hf).bind fun way => (kept.mul hs way).bind fun part => kept.add hf part

theorem progress (began : Rat) {length : Rat} (lasting : 0 < length) :
    Both R (Timeline.progress began length) (Timeline.progress (began + d) length) := by
  have goes : (Number.isNonPositive length : Bool) = false := by simpa using lasting
  simp only [Timeline.progress, goes, Bool.false_eq_true, if_false]
  refine (kept.elapsed began).bind fun elapsed => ?_
  exact (kept.div elapsed lasting.ne').bind fun share => .ok (kept.clamp share)

theorem eased {passed passed' : Except Fault (Expr Rat)} (passes : Both R passed passed')
    (p : Phase Rat) : Both R (Timeline.eased passed p) (Timeline.eased passed' p) :=
  passes.mapError.bind fun share => kept.curve _ share

theorem moving {phase : Option (Phase Rat)} {passed passed' : Except Fault (Expr Rat)}
    (passes : phase.isSome → Both R passed passed') {ends ends' : Effect → Option (Expr Rat × Expr Rat)}
    (along : ∀ effect, Option.Rel (fun e e' => R e.1 e'.1 ∧ R e.2 e'.2) (ends effect)
      (ends' effect)) :
    Both (Option.Rel R) (Timeline.moving phase passed ends)
      (Timeline.moving phase passed' ends') := by
  cases phase with
  | none => exact .ok .none
  | some p =>
    refine Both.option (along p.effect) fun _ related => ?_
    obtain ⟨first, last⟩ := related
    exact (kept.eased (passes rfl) p).bind fun share =>
      (kept.interpolate first share last).mapError

theorem edge {e : Expr Rat} (edge : s.Edge e) : R e e := by
  cases edge with
  | beyond inside => exact kept.dimension inside
  | before inside => exact kept.neg (kept.dimension inside)

theorem piecewise (t : Timeline Rat) {entering exiting entering' exiting' : Option (Expr Rat)}
    {rest rest' : Expr Rat} (comes : Option.Rel R entering entering') (rests : R rest rest')
    (goes : Option.Rel R exiting exiting') :
    R (t.piecewise entering rest exiting) ((t.delayed d).piecewise entering' rest' exiting') := by
  have after : R (t.piecewise none rest exiting) ((t.delayed d).piecewise none rest' exiting') := by
    cases goes with
    | none => exact rests
    | some exit => exact kept.choice t.holdEnd rests exit
  cases comes with
  | none => exact after
  | some entry => exact kept.choice t.inEnd entry after

end Kept

structure Timeline.Keeps (R : Expr Rat → Expr Rat → Prop) (d : Rat) (t : Timeline Rat) : Prop where
  entering : t.entry.isSome → Both R t.inProgress (t.delayed d).inProgress
  exiting : t.exit.isSome → Both R t.outProgress (t.delayed d).outProgress

section
variable {s : Symbols} {d : Rat} {R : Expr Rat → Expr Rat → Prop} {start : Rat}
  {finish : Option Rat} {animation : Option (Animation Rat)} {t : Timeline Rat}

theorem Kept.phases (kept : Kept s d R) (made : ∀ a ∈ animation, a.Constructed)
    (built : Timeline.build start finish animation = .ok t) : t.Keeps R d := by
  cases animation with
  | none =>
    cases built
    exact ⟨by simp, by simp⟩
  | some a =>
    have parts := made a rfl
    have runs := Timeline.builtRuns built
    have later := Timeline.builtRuns (Timeline.buildDelayed d built)
    constructor
    · intro shown
      rw [runs.entry] at shown
      obtain ⟨p, shown⟩ := Option.isSome_iff_exists.mp shown
      obtain ⟨given, lasting⟩ := visibleLasts parts.entry p shown
      rw [runs.entering p given, later.entering p given]
      exact kept.progress start lasting
    · intro shown
      rw [runs.exit] at shown
      obtain ⟨p, shown⟩ := Option.isSome_iff_exists.mp shown
      obtain ⟨given, lasting⟩ := visibleLasts parts.exit p shown
      rw [runs.exiting p given, later.exiting p given]
      exact kept.progress t.holdEnd lasting

theorem Kept.position (kept : Kept s d R) (keeps : t.Keeps R d) (axis : Axis)
    {rest rest' : Expr Rat} (rests : R rest rest') :
    Both R (t.position axis s rest) ((t.delayed d).position axis s rest') := by
  have comes : ∀ effect, Option.Rel (fun e e' => R e.1 e'.1 ∧ R e.2 e'.2)
      ((axis.entryOffset? s effect).map fun offset => (offset, rest))
      ((axis.entryOffset? s effect).map fun offset => (offset, rest')) := by
    intro effect
    cases from? : axis.entryOffset? (ν := Rat) s effect with
    | none => exact .none
    | some offset => exact .some ⟨kept.edge (Axis.entryEdge from?), rests⟩
  have goes : ∀ effect, Option.Rel (fun e e' => R e.1 e'.1 ∧ R e.2 e'.2)
      ((axis.exitTarget? s effect).map fun target => (rest, target))
      ((axis.exitTarget? s effect).map fun target => (rest', target)) := by
    intro effect
    cases to? : axis.exitTarget? (ν := Rat) s effect with
    | none => exact .none
    | some target => exact .some ⟨rests, kept.edge (Axis.exitEdge to?)⟩
  refine (kept.moving keeps.entering comes).bind fun entering => ?_
  exact (kept.moving keeps.exiting goes).bind fun exiting =>
    .ok (kept.piecewise t entering rests exiting)

theorem Kept.opacity (kept : Kept s d R) (keeps : t.Keeps R d) :
    Both (Option.Rel R) t.opacity? (t.delayed d).opacity? := by
  simp only [Timeline.opacity?]
  rw [Timeline.delayedEntry, Timeline.delayedExit]
  split
  · exact .ok .none
  · refine (Both.each fun p inside => ?_).bind fun entering =>
      (Both.each fun p inside => ?_).bind fun exiting =>
        .ok (.some (kept.piecewise t entering (kept.whole 1) exiting))
    · have shown := Option.isSome_of_mem (Option.mem_filter_iff.mp inside).1
      exact kept.eased (keeps.entering shown) p
    · have shown := Option.isSome_of_mem (Option.mem_filter_iff.mp inside).1
      exact (kept.eased (keeps.exiting shown) p).bind fun share =>
        (kept.sub (kept.whole 1) share).mapError

theorem Kept.zoomEntry (kept : Kept s d R) {p : Phase Rat} (base : Rat) (lasting : 0 < p.duration)
    (passes : Both R t.inProgress (t.delayed d).inProgress) :
    Both R (zoomEntry t p base) (zoomEntry (t.delayed d) p base) := by
  unfold OverlayMotion.zoomEntry
  simp only [exactMul, exactSub, exactAdd, Expr.ofFaultOk, okBind]
  cases p.overshoot with
  | none =>
    exact (kept.eased passes p).bind fun share =>
      (kept.interpolate (kept.const _) share (kept.const _)).mapError
  | some factor =>
    have share : (riseShare : Rat) = 7 / 10 := by norm_num [riseShare]
    obtain ⟨rises, settles⟩ := riseInside lasting
    rw [Phase.rise, ← share] at rises settles
    have summit : (t.delayed d).start + p.duration * riseShare =
        t.start + p.duration * riseShare + d := add_right_comm _ _ _
    simp only [summit]
    refine (kept.progress t.start rises).mapError.bind fun risen => ?_
    refine (kept.curve _ risen).bind fun covered => ?_
    refine (kept.interpolate (kept.const _) covered (kept.const _)).mapError.bind fun rising => ?_
    refine (kept.progress _ settles).mapError.bind fun settled => ?_
    refine (kept.interpolate (kept.const _) settled (kept.const _)).mapError.bind fun settling => ?_
    exact .ok (kept.choice _ rising settling)

theorem Kept.zoomSize (kept : Kept s d R) (start base : Rat)
    (made : ∀ a ∈ animation, a.Constructed) :
    Both (Option.Rel R) (zoomSize? start animation base) (zoomSize? (start + d) animation base) := by
  cases animation with
  | none => exact .ok .none
  | some a =>
    have parts := made a rfl
    obtain ⟨t, built⟩ := Timeline.exactBuilds start none (some a)
    have later : Timeline.build (start + d) none (some a) = .ok (t.delayed d) :=
      Timeline.buildDelayed d built
    have keeps := kept.phases made built
    have runs := Timeline.builtRuns built
    simp only [zoomSize?, built, later, Expr.ofFaultOk, okBind, exactMul, okMap]
    cases (a.entry.filter fun p => p.effect == .zoom).or (a.exit.filter fun p => p.effect == .zoom) with
    | none => exact .ok .none
    | some resting =>
      refine (Both.each fun p inside => ?_).bind fun entering =>
        (Both.each fun p inside => ?_).bind fun exiting =>
          .ok (.some (kept.piecewise t entering (kept.const _) exiting))
      · obtain ⟨given, _, shown⟩ := visibleFiltered inside
        rw [← runs.entry] at shown
        have zooms : ∀ q ∈ a.entry.filter fun p => p.effect == .zoom, q.Constructed :=
          fun q among => parts.entry q (Option.mem_filter_iff.mp among).1
        exact kept.zoomEntry base (visibleLasts zooms p inside).2 (keeps.entering shown)
      · obtain ⟨given, _, shown⟩ := visibleFiltered inside
        rw [← runs.exit] at shown
        exact (kept.eased (keeps.exiting shown) p).bind fun share =>
          (kept.interpolate (kept.const _) share (kept.const _)).mapError

theorem Kept.floated (kept : Kept s d R) (start : Rat) {y y' : Expr Rat} (idle : Option (Idle Rat))
    (height : R y y') : Both R (floated start y idle) (floated (start + d) y' idle) := by
  cases idle with
  | none => exact .ok height
  | some i =>
    unfold OverlayMotion.floated
    simp only
    split_ifs
    · exact .ok height
    · have turn : (fullTurn : Except Fault Rat) = .ok (2 * (3141592653589793 * 10 ^ (-15 : Int))) := rfl
      refine Both.mapError ?_
      simp only [turn, exactMul, okBind]
      refine (kept.elapsed start).bind fun elapsed => ?_
      refine (kept.mul (kept.const _) elapsed).bind fun angle => ?_
      refine (kept.sin angle).bind fun wave => ?_
      exact (kept.mul (kept.const _) wave).bind fun swing => kept.add height swing

end

structure Compiled.Along (R : Expr Rat → Expr Rat → Prop) (c c' : Compiled Rat) : Prop where
  enable : R c.motion.enable c'.motion.enable
  x : R c.motion.x c'.motion.x
  y : R c.motion.y c'.motion.y
  alpha : Option.Rel R c.motion.alpha c'.motion.alpha
  height : R c.height c'.height
  size : Option.Rel R c.size c'.size

omit [Reading] in
theorem Compiled.Along.imp {R S : Expr Rat → Expr Rat → Prop} {c c' : Compiled Rat}
    (along : c.Along R c') (weaker : ∀ {e e'}, R e e' → S e e') : c.Along S c' := by
  have optional {o o' : Option (Expr Rat)} (related : Option.Rel R o o') : Option.Rel S o o' := by
    cases related with
    | none => exact .none
    | some holds => exact .some (weaker holds)
  exact ⟨weaker along.enable, weaker along.x, weaker along.y, optional along.alpha,
    weaker along.height, optional along.size⟩

section
variable {d : Rat} {R : Expr Rat → Expr Rat → Prop} {isCaption : Bool}

theorem Kept.resting {s : Symbols} (kept : Kept s d R) {c : Option (Coordinate Rat)}
    (legible : ∀ at' ∈ c, ∀ source ∈ at'.formulas, ∃ e, Expr.read source = .ok e ∧ R e e)
    (axis size : String) (canvas : axis ∈ s.dimensions) (object : size ∈ s.dimensions) :
    ∃ e, Motion.restingAt (c.map Coordinate.operand)
      (do (← (Expr.var axis).sub (.var size)).div (.ofInt 2)) = .ok e ∧ R e e := by
  cases c with
  | none =>
    obtain ⟨e, e', built, built', related⟩ :=
      (kept.sub (kept.dimension canvas) (kept.dimension object)).bind
        fun room => kept.div room (two_ne_zero (α := Rat))
    obtain rfl := Except.ok.inj (built.symm.trans built')
    refine ⟨e, ?_, related⟩
    rw [Option.map_none, Motion.restingAt]
    exact mapErrorOk.mpr built
  | some at' =>
    cases at' with
    | number v => exact ⟨.const v, rfl, kept.const v⟩
    | formula source => exact legible _ rfl source (List.mem_singleton_self source)

theorem Kept.motion (kept : Kept (symbolsFor isCaption) d R) {p : Placement Rat}
    (made : ∀ a ∈ p.animation, a.Constructed)
    (legible : ∀ source ∈ p.formulas, ∃ e, Expr.read source = .ok e ∧ R e e) :
    Both (fun m m' => R m.enable m'.enable ∧ R m.x m'.x ∧ R m.y m'.y ∧
        Option.Rel R m.alpha m'.alpha)
      (Motion.ofPlacement p isCaption).outcome
      (Motion.ofPlacement (p.delayed d) isCaption).outcome := by
  obtain ⟨x, restingX, restsX⟩ := kept.resting
    (fun at' given source inside => legible source (Placement.coordinateFormulas (.inl given) inside))
    (symbolsFor isCaption).canvasWidth (symbolsFor isCaption).objectWidth
    (by simp [Symbols.dimensions]) (by simp [Symbols.dimensions])
  obtain ⟨y, restingY, restsY⟩ := kept.resting
    (fun at' given source inside => legible source (Placement.coordinateFormulas (.inr given) inside))
    (symbolsFor isCaption).canvasHeight (symbolsFor isCaption).objectHeight
    (by simp [Symbols.dimensions]) (by simp [Symbols.dimensions])
  obtain ⟨t, timed⟩ := Timeline.exactBuilds p.start (some p.finish) p.animation
  have later := Timeline.buildDelayed d timed
  have keeps := kept.phases made timed
  obtain ⟨slidX, slidX', movedX, movedX', alongX⟩ := kept.position keeps .horizontal restsX
  obtain ⟨slidY, slidY', movedY, movedY', alongY⟩ := kept.position keeps .vertical restsY
  obtain ⟨alpha, alpha', faded, faded', fades⟩ := kept.opacity keeps
  exact ⟨_, _, Motion.partsCompiled restingX restingY timed movedX movedY faded,
    Motion.partsCompiled restingX restingY later movedX' movedY' faded',
    kept.window t.start t.clampedEnd, alongX, alongY, fades⟩

theorem Kept.compiled {o : Overlay Rat} (kept : Kept (symbolsFor o.isCaption) d R)
    (made : ∀ a ∈ o.placement.animation, a.Constructed)
    (legible : ∀ source ∈ o.placement.formulas, ∃ e, Expr.read source = .ok e ∧ R e e) :
    Both (Compiled.Along R) o.compiled (o.delayed d).compiled := by
  have caption : (o.delayed d).isCaption = o.isCaption := by cases o <;> rfl
  have idle : Preview.idle? (o.delayed d) = Preview.idle? o := by cases o <;> rfl
  have base : Preview.sizeBase (o.delayed d) = Preview.sizeBase o := by cases o <;> rfl
  unfold Overlay.compiled
  simp only [o.delayedPlacement, caption, idle, base]
  refine (kept.motion made legible).bind fun moved => ?_
  obtain ⟨enable, x, y, alpha⟩ := moved
  refine (kept.floated o.placement.start (Preview.idle? o) y).mapError.bind fun height => ?_
  refine (kept.zoomSize o.placement.start (Preview.sizeBase o) made).mapError.bind fun size => ?_
  exact .ok ⟨enable, x, y, alpha, height, size⟩

end

end OverlayMotion
