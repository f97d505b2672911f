import OverlayMotion.Proofs.Building
import OverlayMotion.Proofs.Construction
import OverlayMotion.Proofs.Fragment

/-! Overlays compile. From bounded numbers every expression of an overlay is built, and its
constants are bounded. In a scope that gives the dimensions and the frame time its text has a
value, provided that the text of no length of a phase is zero. -/
namespace OverlayMotion
open OverlayMotion.Expr (Built Sturdy Varying)
open Scalar (Within Loose Double Share small)
open Binary64 (Stands)

def Outlasts (d : Scalar) : Prop :=
  Number.isNonPositive d ∨ ∃ q, Number.finite? d = .ok (some q) ∧ 5 / 10 ^ 10 < q

instance (d : Scalar) : Decidable (Outlasts d) :=
  match finite : Number.finite? d with
  | .ok (some q) => decidable_of_iff (Number.isNonPositive d ∨ 5 / 10 ^ 10 < q) <| by
    simp [Outlasts, finite]
  | .ok none => decidable_of_iff (Number.isNonPositive d) <| by simp [Outlasts, finite]
  | .error _ => decidable_of_iff (Number.isNonPositive d) <| by simp [Outlasts, finite]

def Timed (k : Nat) (scope : Expr.Scope Scalar) : Prop :=
  ∃ x q, scope "t" = some (.float x) ∧ Stands x q ∧ |q| ≤ 2 ^ k

structure Serves (s : Symbols) (k : Nat) (scope : Expr.Scope Scalar) : Prop where
  time : Timed k scope
  dimensions : ∀ name ∈ s.dimensions, ∃ v, scope name = some v ∧ Loose k v

variable {scopes : Set (Expr.Scope Scalar)} {V : Scalar → Prop} {j k l m : Nat}

theorem Timed.mono {scope : Expr.Scope Scalar} (timed : Timed j scope) (wider : j ≤ k) :
    Timed k scope := by
  obtain ⟨x, q, bound, stands, small⟩ := timed
  exact ⟨x, q, bound, stands, small.trans (pow_le_pow_right₀ one_le_two wider)⟩

theorem Easing.curveHolds (easing : Easing) {p : Expr Scalar} (few : k + 3 ≤ 1000)
    (wide : 2 ≤ k) (hp : Built scopes Share k p) (shape : p = .ofInt 1 ∨ Varying p) :
    ∃ e, easing.curve p = .ok e ∧ Sturdy scopes (k + 3) e := by
  rcases shape with rfl | varying
  · refine ⟨.ofInt 1, by cases easing <;> rfl, ?_⟩
    exact hp.weaken (by omega) fun _ share => share.double.loose
  · have bounded : Built scopes (Scalar.Among {q | |q| ≤ 1}) k p :=
      hp.weaken le_rfl fun _ => Scalar.shareBounded
    obtain ⟨squared, (squaredBuilt : p.pow (.ofInt 2) = _), hs⟩ :=
      Expr.powHolds (n := 2) bounded varying (by decide) (by decide) wide
    obtain ⟨cubed, (cubedBuilt : p.pow (.ofInt 3) = _), hc⟩ :=
      Expr.powHolds (n := 3) bounded varying (by decide) (by decide) wide
    cases easing with
    | linear => exact ⟨p, rfl, hp.weaken (by omega) fun _ share => share.double.loose⟩
    | easeIn => exact ⟨cubed, cubedBuilt, hc.sturdy.mono (by omega)⟩
    | easeOut =>
      obtain ⟨left, leftBuilt, leftVarying, hl⟩ := Expr.restHolds wide hp varying
      obtain ⟨fallen, (fallenBuilt : left.pow (.ofInt 3) = _), hf⟩ :=
        Expr.powHolds (n := 3) hl leftVarying (by decide) (by decide) wide
      have one : Sturdy scopes k (.ofInt 1) :=
        Expr.smallHolds (n := 1) (by decide) (Expr.smallWithin (by decide) wide) trivial
      obtain ⟨e, built, he⟩ := Expr.subHolds (by omega) one hf.sturdy
      refine ⟨e, ?_, he.mono (by omega)⟩
      simp only [curve, leftBuilt, fallenBuilt, built, Expr.ofFaultOk, okBind]
    | easeInOut =>
      have three : Sturdy scopes 2 (.ofInt 3) :=
        Expr.smallHolds (n := 3) (by decide) (Expr.smallWithin (by decide) le_rfl) trivial
      have two : Sturdy scopes 2 (.ofInt 2) :=
        Expr.smallHolds (n := 2) (by decide) (Expr.smallWithin (by decide) le_rfl) trivial
      obtain ⟨first, firstBuilt, h₁⟩ := Expr.mulHolds (by omega) three hs.sturdy
      obtain ⟨second, secondBuilt, h₂⟩ := Expr.mulHolds (by omega) two hc.sturdy
      obtain ⟨e, built, he⟩ := Expr.subHolds (by omega) h₁ h₂
      refine ⟨e, ?_, he.mono (by omega)⟩
      simp only [curve, squaredBuilt, firstBuilt, cubedBuilt, secondBuilt, built, Expr.ofFaultOk,
        okBind]

theorem timeHolds (timed : ∀ scope ∈ scopes, Timed k scope) :
    Built scopes (fun v => Within k v ∧ Double v) k .time := by
  refine Expr.variableHolds (Expr.named rfl rfl rfl) fun scope inside => ?_
  obtain ⟨x, q, bound, stands, small⟩ := timed scope inside
  exact ⟨_, bound, ⟨q, stands, small⟩, x, rfl⟩

theorem elapsedHolds {start : Scalar} (few : k < 1000) (hs : Within k start)
    (timed : ∀ scope ∈ scopes, Timed k scope) :
    ∃ e, Expr.time.sub (.const start) = .ok e ∧ Varying e ∧
      Built scopes (fun v => Within (k + 1) v ∧ Double v) k e := by
  have time := timeHolds timed
  have most : Nat.max k k < 1000 := by simpa using few
  have unfolded : Expr.time.sub (.const start) = .ok (if (Expr.const start).isZero then .time
    else .binary .sub .time (.const start)) := rfl
  rw [unfolded]
  refine ⟨_, rfl, ?_, ?_⟩
  · split_ifs <;> simp [Varying, Expr.time]
  · split_ifs
    · exact time.weaken le_rfl fun v kind => ⟨kind.1.mono (Nat.le_succ k), kind.2⟩
    · refine Expr.binaryHolds time (Expr.constantHolds few.le hs) (by simp) ?_
      rintro _ _ ⟨within, x, rfl⟩ ⟨within', y, rfl⟩
      obtain ⟨w, difference, bounded⟩ := within.sub most within'
      cases difference
      exact ⟨_, rfl, by simpa using bounded, x - y, rfl⟩

theorem outlastsDivides {d : Scalar} (few : k ≤ 1000) (within : Within k d)
    (running : ¬ Number.isNonPositive d) (outlasts : Outlasts d) :
    ∃ y q, Expr.denoted d = .float y ∧ Stands y q ∧ q ≠ 0 := by
  obtain ⟨q, finite, long⟩ := outlasts.resolve_left running
  obtain ⟨q', finite', bounded⟩ := within.finite few
  rw [finite] at finite'
  cases finite'
  obtain ⟨y, r, same, stands, _, some⟩ := Scalar.denotedBounded finite few bounded
  exact ⟨y, r, same, stands, some (long.trans_le (le_abs_self q))⟩

theorem Timeline.progressHolds {start d : Scalar} (few : k < 1000) (wide : 2 ≤ k)
    (hs : Within k start) (hd : Within k d) (timed : ∀ scope ∈ scopes, Timed k scope)
    (outlasts : scopes.Nonempty → Outlasts d) :
    ∃ e, progress start d = .ok e ∧ (e = .ofInt 1 ∨ Varying e) ∧ Built scopes Share k e := by
  unfold progress
  split
  · have whole : Share (.float (small 1)) :=
      ⟨_, rfl, .inr ⟨1, by simp, by exact_mod_cast Scalar.smallStands (n := 1) (by decide)⟩⟩
    exact ⟨_, rfl, .inl rfl,
      Expr.smallHolds (n := 1) (by decide) (Expr.smallWithin (by decide) wide) whole⟩
  · rename_i running
    obtain ⟨elapsed, elapsedBuilt, varying, he⟩ := elapsedHolds few hs timed
    obtain ⟨share, shareBuilt, varying', hq⟩ := Expr.quotientHolds few.le
      (he.weaken le_rfl fun _ kind => kind.2) varying (fun _ double => double.loose)
      (fun x => ⟨x, rfl⟩) hd fun some => outlastsDivides few.le hd running (outlasts some)
    obtain ⟨varying'', hc⟩ := Expr.clampHolds wide hq varying'
    refine ⟨_, ?_, .inr varying'', hc⟩
    rw [elapsedBuilt, okBind, shareBuilt, okBind]
    rfl

theorem interpolateHolds {first share last : Expr Scalar} (few : j + m + 2 ≤ 1000)
    (hf : Sturdy scopes m first) (hs : Sturdy scopes j share) (hl : Sturdy scopes m last) :
    ∃ e, interpolate first share last = .ok e ∧ Sturdy scopes (j + m + 2) e := by
  obtain ⟨way, wayBuilt, hw⟩ := Expr.subHolds (by omega) hl hf
  obtain ⟨gone, goneBuilt, hg⟩ := Expr.mulHolds (by omega) hs hw
  obtain ⟨e, built, he⟩ := Expr.addHolds (by omega) (hf.mono (by omega : m ≤ j + (m + 1))) hg
  refine ⟨e, ?_, he.mono (by omega)⟩
  rw [interpolate, wayBuilt, okBind, goneBuilt, okBind, built]

structure Timeline.Sized (k : Nat) (t : Timeline Scalar) : Prop where
  start : Within k t.start
  inEnd : Within k t.inEnd
  holdEnd : Within k t.holdEnd
  outEnd : Within k t.outEnd
  clampedEnd : Within k t.clampedEnd

theorem Timeline.Sized.mono {t : Timeline Scalar} (sized : t.Sized j) (wider : j ≤ k) :
    t.Sized k where
  start := sized.start.mono wider
  inEnd := sized.inEnd.mono wider
  holdEnd := sized.holdEnd.mono wider
  outEnd := sized.outEnd.mono wider
  clampedEnd := sized.clampedEnd.mono wider

structure Timeline.Outlasting (t : Timeline Scalar) : Prop where
  entering : t.entry.isSome → ∀ d, Number.sub t.inEnd t.start = .ok d → Outlasts d
  exiting : t.exit.isSome → ∀ d, Number.sub t.outEnd t.holdEnd = .ok d → Outlasts d

instance (t : Timeline Scalar) : Decidable t.Outlasting :=
  decidable_of_iff
    ((t.entry.isSome → ∀ d, Number.sub t.inEnd t.start = .ok d → Outlasts d) ∧
      (t.exit.isSome → ∀ d, Number.sub t.outEnd t.holdEnd = .ok d → Outlasts d))
    ⟨fun h => ⟨h.1, h.2⟩, fun h => ⟨h.entering, h.exiting⟩⟩

def Passes (scopes : Set (Expr.Scope Scalar)) (k : Nat) (progress : Except Fault (Expr Scalar)) :
    Prop :=
  ∃ e, progress = .ok e ∧ (e = .ofInt 1 ∨ Varying e) ∧ Built scopes Share k e

namespace Timeline
variable {t : Timeline Scalar}

theorem spanPasses {a b : Scalar} (few : k + 1 < 1000) (wide : 2 ≤ k) (ha : Within k a)
    (hb : Within k b) (timed : ∀ scope ∈ scopes, Timed k scope)
    (outlasts : scopes.Nonempty → ∀ d, Number.sub b a = .ok d → Outlasts d) :
    Passes scopes (k + 1) (do progress a (← Number.sub b a)) := by
  obtain ⟨d, length, hd⟩ := hb.sub (by simp; omega) ha
  rw [max_self] at hd
  rw [length, okBind]
  exact progressHolds few (by omega) (ha.mono (Nat.le_succ k)) hd
    (fun scope inside => (timed scope inside).mono (Nat.le_succ k))
    fun some => outlasts some d length

section
variable (few : k + 1 < 1000) (wide : 2 ≤ k) (sized : t.Sized k)
  (timed : ∀ scope ∈ scopes, Timed k scope) (outlasting : scopes.Nonempty → t.Outlasting)
include few wide sized timed outlasting

theorem inPasses (given : t.entry.isSome) : Passes scopes (k + 1) t.inProgress :=
  spanPasses few wide sized.start sized.inEnd timed fun some => (outlasting some).entering given

theorem outPasses (given : t.exit.isSome) : Passes scopes (k + 1) t.outProgress :=
  spanPasses few wide sized.holdEnd sized.outEnd timed fun some => (outlasting some).exiting given

end

theorem easedHolds {progress : Except Fault (Expr Scalar)} (phase : Phase Scalar)
    (few : k + 3 ≤ 1000) (wide : 2 ≤ k) (passes : Passes scopes k progress) :
    ∃ e, eased progress phase = .ok e ∧ Sturdy scopes (k + 3) e := by
  obtain ⟨p, built, shape, hp⟩ := passes
  obtain ⟨e, curved, he⟩ := (phase.easing.getD .linear).curveHolds few wide hp shape
  exact ⟨e, by rw [eased, built, Expr.ofFaultOk, okBind, curved], he⟩

theorem movingHolds (phase : Option (Phase Scalar)) {progress : Except Fault (Expr Scalar)}
    (ends? : Effect → Option (Expr Scalar × Expr Scalar)) (few : k + m + 5 ≤ 1000) (wide : 2 ≤ k)
    (passes : phase.isSome → Passes scopes k progress)
    (ends : ∀ {effect first last}, ends? effect = some (first, last) →
      Sturdy scopes m first ∧ Sturdy scopes m last) :
    ∃ o, moving phase progress ends? = .ok o ∧ ∀ e ∈ o, Sturdy scopes (k + m + 5) e := by
  cases phase with
  | none => exact ⟨none, rfl, by simp⟩
  | some p =>
    cases way : ends? p.effect with
    | none => exact ⟨none, by simp [moving, Option.bindM, way], by simp⟩
    | some between =>
      obtain ⟨first, last⟩ := between
      obtain ⟨hf, hl⟩ := ends way
      obtain ⟨share, shareBuilt, hs⟩ := easedHolds p (by omega) wide (passes rfl)
      obtain ⟨e, built, he⟩ := interpolateHolds (by omega) hf hs hl
      refine ⟨some e, by simp [moving, Option.bindM, way, shareBuilt, built], ?_⟩
      rintro _ ⟨⟩
      exact he.mono (by omega)

theorem piecewiseHolds {entering exiting : Option (Expr Scalar)} {rest : Expr Scalar}
    (few : k ≤ 1000) (sized : t.Sized k) (timed : ∀ scope ∈ scopes, Timed k scope)
    (he : ∀ e ∈ entering, Sturdy scopes k e) (hr : Sturdy scopes k rest)
    (hx : ∀ e ∈ exiting, Sturdy scopes k e) :
    Sturdy scopes k (t.piecewise entering rest exiting) := by
  have time := timeHolds timed
  have after : Sturdy scopes k (t.piecewise none rest exiting) := by
    cases exiting with
    | none => exact hr
    | some e => exact Expr.condHolds time (Expr.constantSturdy few sized.holdEnd) hr (hx e rfl)
  cases entering with
  | none => exact after
  | some e => exact Expr.condHolds time (Expr.constantSturdy few sized.inEnd) (he e rfl) after

section
variable {isCaption : Bool}

theorem dimensionHolds {name : String} (inside : name ∈ (symbolsFor isCaption).dimensions)
    (serves : ∀ scope ∈ scopes, Serves (symbolsFor isCaption) k scope) :
    Sturdy scopes k (.var name) :=
  Expr.variableHolds (dimensionNamed inside) fun scope among =>
    (serves scope among).dimensions name inside

theorem offsetHolds {axis : Axis} {effect : Effect} {e : Expr Scalar} (few : k ≤ 1000)
    (serves : ∀ scope ∈ scopes, Serves (symbolsFor isCaption) k scope)
    (moved : axis.entryOffset? (symbolsFor isCaption) effect = some e ∨
      axis.exitTarget? (symbolsFor isCaption) effect = some e) : Sturdy scopes k e := by
  have edge {name : String} (inside : name ∈ (symbolsFor isCaption).dimensions) :
      Sturdy scopes k (.var name) ∧ Sturdy scopes k (.neg (.var name)) :=
    ⟨dimensionHolds inside serves, Expr.negateHolds few (dimensionHolds inside serves)⟩
  cases axis <;> cases effect <;> simp only [Axis.entryOffset?, Axis.exitTarget?] at moved <;>
    rcases moved with moved | moved <;> cases moved <;>
    first
      | exact (edge (by simp [Symbols.dimensions])).1
      | exact (edge (by simp [Symbols.dimensions])).2

theorem positionHolds {rest : Expr Scalar} (few : k + m + 6 ≤ 1000) (wide : 2 ≤ k) (most : k ≤ m)
    (sized : t.Sized k) (serves : ∀ scope ∈ scopes, Serves (symbolsFor isCaption) k scope)
    (outlasting : scopes.Nonempty → t.Outlasting) (hr : Sturdy scopes m rest) (axis : Axis) :
    ∃ e, t.position axis (symbolsFor isCaption) rest = .ok e ∧
      Sturdy scopes (k + m + 6) e := by
  have timed scope (inside : scope ∈ scopes) : Timed k scope := (serves scope inside).time
  obtain ⟨coming, comingBuilt, hc⟩ := movingHolds (m := m) t.entry
    (fun effect =>
      (axis.entryOffset? (symbolsFor isCaption) effect).map fun offset => (offset, rest))
    (by omega) (by omega) (inPasses (by omega) wide sized timed outlasting) fun way => by
      obtain ⟨_, moved, same⟩ := Option.map_eq_some_iff.mp way
      cases same
      exact ⟨(offsetHolds (by omega) serves (.inl moved)).mono most, hr⟩
  obtain ⟨going, goingBuilt, hg⟩ := movingHolds (m := m) t.exit
    (fun effect =>
      (axis.exitTarget? (symbolsFor isCaption) effect).map fun target => (rest, target))
    (by omega) (by omega) (outPasses (by omega) wide sized timed outlasting) fun way => by
      obtain ⟨_, moved, same⟩ := Option.map_eq_some_iff.mp way
      cases same
      exact ⟨hr, (offsetHolds (by omega) serves (.inr moved)).mono most⟩
  refine ⟨t.piecewise coming rest going, ?_, ?_⟩
  · simp only [position, comingBuilt, goingBuilt, okBind, pureIsOk]
  · exact piecewiseHolds few (sized.mono (by omega))
      (fun scope inside => (timed scope inside).mono (by omega))
      (fun e inside => (hc e inside).mono (by omega)) (hr.mono (by omega))
      (fun e inside => (hg e inside).mono (by omega))

theorem opacityHolds (few : k + 5 ≤ 1000) (wide : 2 ≤ k) (sized : t.Sized k)
    (timed : ∀ scope ∈ scopes, Timed k scope) (outlasting : scopes.Nonempty → t.Outlasting) :
    ∃ alpha, t.opacity? = .ok alpha ∧ ∀ e ∈ alpha, Sturdy scopes (k + 5) e := by
  have one (n : Nat) (room : 2 ≤ n) : Sturdy scopes n (.ofInt 1) :=
    Expr.smallHolds (n := 1) (by decide) (Expr.smallWithin (by decide) room) trivial
  obtain ⟨coming, comingBuilt, hc⟩ := optionMapOk (o := t.entry.filter fun p => p.effect == .fade)
    (f := fun p => eased t.inProgress p) (P := fun _ e => Sturdy scopes (k + 5) e)
    fun p inside => by
      have given : t.entry.isSome := Option.isSome_of_mem (Option.mem_filter_iff.mp inside).1
      obtain ⟨e, built, he⟩ := easedHolds p (by omega) (by omega)
        (inPasses (by omega) wide sized timed outlasting given)
      exact ⟨e, built, he.mono (by omega)⟩
  obtain ⟨going, goingBuilt, hg⟩ := optionMapOk (o := t.exit.filter fun p => p.effect == .fade)
    (f := fun p => do Expr.ofFault ((Expr.ofInt 1).sub (← eased t.outProgress p)))
    (P := fun _ e => Sturdy scopes (k + 5) e) fun p inside => by
      have given : t.exit.isSome := Option.isSome_of_mem (Option.mem_filter_iff.mp inside).1
      obtain ⟨share, built, hs⟩ := easedHolds p (by omega) (by omega)
        (outPasses (by omega) wide sized timed outlasting given)
      obtain ⟨e, rested, he⟩ := Expr.subHolds (by omega) (one _ (by omega)) hs
      exact ⟨e, by rw [built, okBind, rested, Expr.ofFaultOk], he⟩
  simp only [opacity?]
  split
  · exact ⟨none, rfl, by simp⟩
  · refine ⟨some (t.piecewise coming (.ofInt 1) going), ?_, ?_⟩
    · simp only [comingBuilt, goingBuilt, okBind, pureIsOk]
    · rintro _ ⟨⟩
      exact piecewiseHolds few (sized.mono (by omega))
        (fun scope inside => (timed scope inside).mono (by omega))
        (relMember hc) (one _ (by omega)) (relMember hg)

end

theorem noughtWithin : Within k (Number.ofDecimal 0 0) :=
  ⟨0, by exact_mod_cast Scalar.smallStands (n := 0) (by decide), by simp⟩

theorem minWithin {a b : Scalar} (ha : Within k a) (hb : Within k b) :
    Within k (Number.min a b) := by
  unfold Number.min
  split
  · exact hb
  · exact ha

theorem buildHolds {start : Scalar} (finish : Option Scalar)
    {animation : Option (Animation Scalar)} (few : k + 3 ≤ 1000) (hs : Within k start)
    (hf : ∀ f ∈ finish, Within k f)
    (ha : ∀ a ∈ animation, ∀ v ∈ a.numbers, Within k v) :
    ∃ t, build start finish animation = .ok t ∧ t.Sized (k + 3) := by
  cases animation with
  | none =>
    have stop : Within (k + 3) (finish.getD start) := by
      cases finish with
      | none => exact hs.mono (by omega)
      | some f => exact (hf f rfl).mono (by omega)
    have begun := hs.mono (by omega : k ≤ k + 3)
    exact ⟨_, rfl, begun, begun, stop, stop, stop⟩
  | some a =>
    have numbers := ha a rfl
    have entry : Within k a.inDuration := by
      unfold Animation.inDuration
      split
      · rename_i p given
        exact numbers _ (Animation.phaseNumbers (.inl given) (by simp [Phase.numbers]))
      · exact noughtWithin
    have exit : Within k a.outDuration := by
      unfold Animation.outDuration
      split
      · rename_i p given
        exact numbers _ (Animation.phaseNumbers (.inr given) (by simp [Phase.numbers]))
      · exact noughtWithin
    obtain ⟨inEnd, inBuilt, hin⟩ := hs.add (by omega) entry
    obtain ⟨holdEnd, holdBuilt, hhold⟩ := hin.add (by omega) (numbers a.hold List.mem_cons_self)
    obtain ⟨outEnd, outBuilt, hout⟩ := hhold.add (by omega) exit
    have ended := hout.mono (by omega : _ ≤ k + 3)
    refine ⟨_, by simp only [build, inBuilt, holdBuilt, outBuilt, okBind, pureIsOk]; rfl, ?_⟩
    refine ⟨hs.mono (by omega), hin.mono (by omega), hhold.mono (by omega), ended, ?_⟩
    cases finish with
    | none => exact ended
    | some f => exact minWithin ended ((hf f rfl).mono (by omega))

end Timeline

def Phase.Rising (p : Phase Scalar) : Prop :=
  p.overshoot.isSome → ∀ rise, Number.mul p.duration riseShare = .ok rise →
    Outlasts rise ∧ ∀ settle, Number.sub p.duration rise = .ok settle → Outlasts settle

instance (p : Phase Scalar) : Decidable p.Rising :=
  inferInstanceAs (Decidable (_ → ∀ _, _ → _))

def Animation.Outlasting (start : Scalar) (a : Animation Scalar) : Prop :=
  ∀ t, Timeline.build start none (some a) = .ok t → t.Outlasting ∧
    ∀ p ∈ a.entry, p.effect = .zoom → p.Rising

instance (start : Scalar) (a : Animation Scalar) : Decidable (a.Outlasting start) :=
  inferInstanceAs (Decidable (∀ _, _ → _))

theorem Timeline.builtParts {ν : Type} [Number ν] {start : ν} {finish : Option ν}
    {a : Animation ν} {t : Timeline ν} (built : build start finish (some a) = .ok t) :
    t.start = start ∧ t.entry = Phase.visible? a.entry ∧ t.exit = Phase.visible? a.exit ∧
      ∃ uncut, build start none (some a) = .ok uncut ∧
        t = { uncut with clampedEnd := t.clampedEnd } := by
  simp only [build, bindOk] at built
  obtain ⟨inEnd, hin, holdEnd, hhold, outEnd, hout, last⟩ := built
  cases last
  refine ⟨rfl, rfl, rfl, ?_⟩
  simp only [build, hin, hhold, hout, okBind, pureIsOk]
  exact ⟨_, rfl, rfl⟩

structure Motion.Holds (scopes : Set (Expr.Scope Scalar)) (k : Nat) (motion : Motion Scalar) :
    Prop where
  enable : Sturdy scopes k motion.enable
  x : Sturdy scopes k motion.x
  y : Sturdy scopes k motion.y
  alpha : ∀ e ∈ motion.alpha, Sturdy scopes k e

theorem Motion.compileHolds {t : Timeline Scalar} {isCaption : Bool} {x y : Expr Scalar}
    (few : k + m + 6 ≤ 1000) (wide : 2 ≤ k) (most : k ≤ m) (sized : t.Sized k)
    (serves : ∀ scope ∈ scopes, Serves (symbolsFor isCaption) k scope)
    (outlasting : scopes.Nonempty → t.Outlasting) (hx : Sturdy scopes m x)
    (hy : Sturdy scopes m y) :
    ∃ motion, compile t (symbolsFor isCaption) x y = .ok motion ∧
      motion.Holds scopes (k + m + 6) := by
  have timed scope (inside : scope ∈ scopes) : Timed k scope := (serves scope inside).time
  have one : Sturdy scopes k t.enable :=
    (Expr.betweenHolds (timeHolds timed) (Expr.constantSturdy (by omega) sized.start)
      (Expr.constantSturdy (by omega) sized.clampedEnd)).sturdy
  obtain ⟨across, acrossBuilt, ha⟩ :=
    Timeline.positionHolds few wide most sized serves outlasting hx .horizontal
  obtain ⟨down, downBuilt, hd⟩ :=
    Timeline.positionHolds few wide most sized serves outlasting hy .vertical
  obtain ⟨alpha, alphaBuilt, ho⟩ :=
    Timeline.opacityHolds (by omega) wide sized timed outlasting
  refine ⟨⟨t.enable, across, down, alpha⟩, ?_, one.mono (by omega), ha, hd,
    fun e inside => (ho e inside).mono (by omega)⟩
  simp only [compile, acrossBuilt, downBuilt, alphaBuilt, okBind, pureIsOk]

theorem riseShareWithin : Within 0 riseShare := by
  obtain ⟨q, stands, nonneg, bounded, _⟩ := @Binary64.ofDecimalBounded 0 7 1 (by decide)
    (by decide) (by decide) (by norm_num)
  exact ⟨q, stands, by simpa [abs_of_nonneg nonneg] using bounded⟩

section
variable {t : Timeline Scalar} {base : Scalar}

theorem scaledHolds {v : Scalar} (few : 2 * k ≤ 1000) (hv : Within k v) (hb : Within k base) :
    ∃ w, Number.mul v base = .ok w ∧ Sturdy scopes (2 * k) (.const w) := by
  obtain ⟨w, product, hw⟩ := hv.mul (by omega) hb
  exact ⟨w, product, Expr.constantSturdy few (two_mul k ▸ hw)⟩

section
variable {p : Phase Scalar} (few : 3 * k + 12 ≤ 1000) (sized : t.Sized (k + 3))
  (hb : Within k base) (hp : ∀ v ∈ p.numbers, Within k v) (timed : ∀ scope ∈ scopes, Timed k scope)
include few sized hb hp timed

theorem plainZoomHolds (outlasting : scopes.Nonempty → t.Outlasting) (given : t.entry.isSome)
    (plain : p.overshoot = none) :
    ∃ e, zoomEntry t p base = .ok e ∧ Sturdy scopes (3 * k + 12) e := by
  obtain ⟨low, lowBuilt, hlow⟩ := scaledHolds (by omega) (hp p.zoomFrom (by simp [Phase.numbers])) hb
  obtain ⟨high, highBuilt, hhigh⟩ := scaledHolds (by omega) (hp p.zoomTo (by simp [Phase.numbers])) hb
  obtain ⟨share, shareBuilt, hs⟩ := Timeline.easedHolds p (by omega) (by omega)
    (Timeline.inPasses (by omega) (by omega) sized
      (fun scope inside => (timed scope inside).mono (by omega)) outlasting given)
  obtain ⟨e, built, he⟩ := interpolateHolds (by omega) hlow hs hhigh
  refine ⟨e, ?_, he.mono (by omega)⟩
  simp only [zoomEntry, lowBuilt, highBuilt, plain, shareBuilt, built, Expr.ofFaultOk, okBind]

theorem overshootHolds (begun : Within k t.start) (rising : scopes.Nonempty → p.Rising)
    {factor : Scalar} (beyond : p.overshoot = some factor) :
    ∃ e, zoomEntry t p base = .ok e ∧ Sturdy scopes (3 * k + 12) e := by
  have timed' {n : Nat} (room : k ≤ n) : ∀ scope ∈ scopes, Timed n scope :=
    fun scope inside => (timed scope inside).mono room
  obtain ⟨low, lowBuilt, hlow⟩ := scaledHolds (by omega) (hp p.zoomFrom (by simp [Phase.numbers])) hb
  obtain ⟨high, highBuilt, hhigh⟩ := scaledHolds (by omega) (hp p.zoomTo (by simp [Phase.numbers])) hb
  obtain ⟨peak, peakBuilt, hpeak⟩ :=
    scaledHolds (by omega) (hp factor (by simp [Phase.numbers, beyond])) hb
  have lasting : Within k p.duration := hp _ (by simp [Phase.numbers])
  obtain ⟨rise, riseBuilt, hrise⟩ := lasting.mul (by omega) riseShareWithin
  obtain ⟨settle, settleBuilt, hsettle⟩ := lasting.sub (by omega) hrise
  obtain ⟨summit, summitBuilt, hsummit⟩ := begun.add (by omega) hrise
  have lengths (some : scopes.Nonempty) : Outlasts rise ∧ Outlasts settle := by
    obtain ⟨first, second⟩ := rising some (by rw [beyond]; rfl) rise riseBuilt
    exact ⟨first, second settle settleBuilt⟩
  obtain ⟨risen, risenBuilt, shape, hr⟩ := Timeline.progressHolds (by omega) (by omega)
    sized.start (hrise.mono (by omega)) (timed' (by omega)) fun some => (lengths some).1
  obtain ⟨share, shareBuilt, hs⟩ :=
    (p.easing.getD .easeOut).curveHolds (by omega) (by omega) hr shape
  obtain ⟨climb, climbBuilt, hc⟩ := interpolateHolds (by omega) hlow hs hpeak
  obtain ⟨settled, settledBuilt, _, ht⟩ := Timeline.progressHolds (k := k + 3) (by omega)
    (by omega) (hsummit.mono (by omega)) (hsettle.mono (by omega)) (timed' (by omega))
    fun some => (lengths some).2
  obtain ⟨fall, fallBuilt, hf⟩ := interpolateHolds (by omega) hpeak
    (ht.weaken le_rfl fun _ share => share.double.loose) hhigh
  refine ⟨(Expr.time.lt (.const summit)).cond climb fall, ?_, ?_⟩
  · simp only [zoomEntry, lowBuilt, highBuilt, beyond, peakBuilt, riseBuilt, settleBuilt,
      summitBuilt, risenBuilt, shareBuilt, climbBuilt, settledBuilt, fallBuilt, Expr.ofFaultOk,
      okBind, pureIsOk]
  · exact Expr.condHolds (timeHolds (timed' (by omega)))
      (Expr.constantSturdy few (hsummit.mono (by omega))) (hc.mono (by omega))
      (hf.mono (by omega))

theorem zoomEntryHolds (begun : Within k t.start) (outlasting : scopes.Nonempty → t.Outlasting)
    (rising : scopes.Nonempty → p.Rising) (given : t.entry.isSome) :
    ∃ e, zoomEntry t p base = .ok e ∧ Sturdy scopes (3 * k + 12) e := by
  cases beyond : p.overshoot with
  | none => exact plainZoomHolds few sized hb hp timed outlasting given beyond
  | some factor => exact overshootHolds few sized hb hp timed begun rising beyond

theorem zoomExitHolds {rest : Expr Scalar} (outlasting : scopes.Nonempty → t.Outlasting)
    (given : t.exit.isSome) (hr : Sturdy scopes (2 * k) rest) :
    ∃ e, (do
        let target ← Expr.ofFault (Number.mul p.zoomFrom base)
        Expr.ofFault (interpolate rest (← Timeline.eased t.outProgress p) (.const target)) :
        Except (Expr.Failure Scalar) (Expr Scalar)) = .ok e ∧ Sturdy scopes (3 * k + 12) e := by
  obtain ⟨target, targetBuilt, ht⟩ :=
    scaledHolds (by omega) (hp p.zoomFrom (by simp [Phase.numbers])) hb
  obtain ⟨share, shareBuilt, hs⟩ := Timeline.easedHolds p (by omega) (by omega)
    (Timeline.outPasses (by omega) (by omega) sized
      (fun scope inside => (timed scope inside).mono (by omega)) outlasting given)
  obtain ⟨e, interpolated, he⟩ := interpolateHolds (by omega) hr hs ht
  refine ⟨e, ?_, he.mono (by omega)⟩
  rw [targetBuilt, Expr.ofFaultOk, okBind, shareBuilt, okBind, interpolated, Expr.ofFaultOk]

end

theorem visibleFiltered {ν : Type} [Number ν] {phase : Option (Phase ν)} {test : Phase ν → Bool}
    {p : Phase ν} (inside : p ∈ Phase.visible? (phase.filter test)) :
    p ∈ phase ∧ test p ∧ (Phase.visible? phase).isSome := by
  obtain ⟨among, shown⟩ := Option.mem_filter_iff.mp inside
  obtain ⟨given, passes⟩ := Option.mem_filter_iff.mp among
  exact ⟨given, passes, Option.isSome_of_mem (Option.mem_filter_iff.mpr ⟨given, shown⟩)⟩

theorem eitherFiltered {α : Type} {first second : Option α} {test : α → Bool} {a : α}
    (chosen : (first.filter test).or (second.filter test) = some a) : a ∈ first ∨ a ∈ second := by
  rcases Option.or_eq_some_iff.mp chosen with inFirst | ⟨_, inSecond⟩
  · exact .inl (Option.mem_filter_iff.mp inFirst).1
  · exact .inr (Option.mem_filter_iff.mp inSecond).1

theorem zoomSizeHolds {start : Scalar} {animation : Option (Animation Scalar)}
    (few : 3 * k + 12 ≤ 1000) (begun : Within k start) (hb : Within k base)
    (ha : ∀ a ∈ animation, ∀ v ∈ a.numbers, Within k v)
    (timed : ∀ scope ∈ scopes, Timed k scope)
    (outlasting : scopes.Nonempty → ∀ a ∈ animation, a.Outlasting start) :
    ∃ size, zoomSize? start animation base = .ok size ∧
      ∀ e ∈ size, Sturdy scopes (3 * k + 12) e := by
  cases animation with
  | none => exact ⟨none, rfl, by simp⟩
  | some a =>
    cases zoomed : (a.entry.filter fun p => p.effect == .zoom).or
        (a.exit.filter fun p => p.effect == .zoom) with
    | none => exact ⟨none, by simp only [zoomSize?, zoomed]; rfl, by simp⟩
    | some resting =>
      obtain ⟨t, built, sized⟩ := Timeline.buildHolds none (by omega) begun (by simp) ha
      obtain ⟨same, entry, exit, _⟩ := Timeline.builtParts built
      have phases {p : Phase Scalar} (given : p ∈ a.entry ∨ p ∈ a.exit) :
          ∀ v ∈ p.numbers, Within k v := fun v inside =>
        ha a rfl v (Animation.phaseNumbers given inside)
      obtain ⟨rest, restBuilt, hr⟩ := scaledHolds (by omega)
        (phases (eitherFiltered zoomed) resting.zoomTo (by simp [Phase.numbers])) hb
      have steady (some : scopes.Nonempty) := outlasting some a rfl t built
      obtain ⟨coming, comingBuilt, hc⟩ := optionMapOk
        (o := Phase.visible? (a.entry.filter fun p => p.effect == .zoom))
        (f := fun p => zoomEntry t p base) (P := fun _ e => Sturdy scopes (3 * k + 12) e)
        fun p inside => by
          obtain ⟨given, zooms, shown⟩ := visibleFiltered inside
          exact zoomEntryHolds few sized hb (phases (.inl given)) timed (same ▸ begun)
            (fun some => (steady some).1)
            (fun some => (steady some).2 p given (by simpa using zooms)) (entry ▸ shown)
      obtain ⟨going, goingBuilt, hg⟩ := optionMapOk
        (o := Phase.visible? (a.exit.filter fun p => p.effect == .zoom))
        (P := fun _ e => Sturdy scopes (3 * k + 12) e) fun p inside => by
          obtain ⟨given, _, shown⟩ := visibleFiltered inside
          exact zoomExitHolds few sized hb (phases (.inr given)) timed
            (fun some => (steady some).1) (exit ▸ shown) hr
      refine ⟨some (t.piecewise coming (.const rest) going), ?_, ?_⟩
      · simp only [zoomSize?, zoomed, built, restBuilt, comingBuilt, goingBuilt, Expr.ofFaultOk,
          okMap, okBind, pureIsOk]
      · rintro _ ⟨⟩
        exact Timeline.piecewiseHolds few (sized.mono (by omega))
          (fun scope inside => (timed scope inside).mono (by omega)) (relMember hc)
          (hr.mono (by omega)) (relMember hg)

end

theorem fullTurnWithin : ∃ turn : Scalar, fullTurn = .ok turn ∧ Within 4 turn := by
  obtain ⟨q, stands, nonneg, bounded, _⟩ := @Binary64.ofDecimalBounded 2 3141592653589793 15
    (by decide) (by decide) (by decide) (by norm_num)
  have half : Within 2 (Number.ofDecimal 3141592653589793 (-15)) :=
    ⟨q, stands, by simpa [abs_of_nonneg nonneg] using bounded⟩
  obtain ⟨turn, product, ht⟩ := (Expr.smallWithin (n := 2) (by decide) le_rfl).mul (by decide) half
  exact ⟨turn, product, ht⟩

theorem sineHolds {angle : Expr Scalar} (few : k ≤ 1000) (varying : Varying angle)
    (h : Built scopes (Within k) k angle) : ∃ e, angle.sin = .ok e ∧ Sturdy scopes k e := by
  refine ⟨.call "sin" [angle], ?_, ?_⟩
  · unfold Expr.sin
    split
    · exact absurd rfl (varying _)
    · rfl
  · refine Expr.callOne (f := .sin) (Expr.named rfl rfl rfl) (by simp) rfl h fun hv => ?_
    obtain ⟨x, result⟩ := hv.sin few
    exact ⟨.float x, congrArg (Except.mapError _) result, trivial⟩

theorem waveHolds {elapsed : Expr Scalar} {a : Scalar} (few : j + k ≤ 1000) (ha : Within j a)
    (varying : Varying elapsed) (he : Built scopes (Within k) k elapsed) :
    ∃ angle wave, (Expr.const a).mul elapsed = .ok angle ∧ angle.sin = .ok wave ∧
      Sturdy scopes (j + k) wave := by
  have factor : Built scopes (Within j) j (.const a) :=
    (Expr.constantHolds (by omega) ha).weaken le_rfl fun _ kind => kind.1
  -- The sine of an infinity is refused, so the angle itself must be bounded in every case.
  rw [Expr.mul, varying.unfolded]
  split_ifs with none one other
  · have level : Within (j + k) (.float 0) := ⟨0, Binary64.standsZero (s := .positive) rfl, by simp⟩
    exact ⟨_, .const (.float 0), rfl, rfl, Expr.constantSturdy few level⟩
  · obtain ⟨wave, built, hw⟩ := sineHolds few varying
      (he.weaken (by omega) fun _ within => within.mono (by omega))
    exact ⟨elapsed, wave, rfl, built, hw⟩
  · exact absurd other varying.notOne
  · have product : Built scopes (Within (j + k)) (j + k) (.binary .mul (.const a) elapsed) := by
      refine Expr.binaryHolds (factor.weaken (by omega) fun _ => id)
        (he.weaken (by omega) fun _ => id) (by simp) fun hu hv => ?_
      obtain ⟨w, product, hw⟩ := hu.mul few hv
      exact ⟨w, congrArg (Except.mapError _) product, hw⟩
    obtain ⟨wave, built, hw⟩ := sineHolds few (by simp [Varying]) product
    exact ⟨_, wave, rfl, built, hw⟩

theorem floatedHolds {start : Scalar} {y : Expr Scalar} {idle : Option (Idle Scalar)}
    (few : m < 1000) (room : 3 * k + 5 ≤ m) (begun : Within k start)
    (hi : ∀ i ∈ idle, ∀ v ∈ i.numbers, Within k v)
    (timed : ∀ scope ∈ scopes, Timed k scope) (hy : Sturdy scopes m y) :
    ∃ e, floated start y idle = .ok e ∧ Sturdy scopes (m + 1) e := by
  cases idle with
  | none => exact ⟨y, rfl, hy.mono (by omega)⟩
  | some i =>
    by_cases still : Number.isZero i.amplitude || Number.isZero i.speed
    · exact ⟨y, by simp only [floated, if_pos still], hy.mono (by omega)⟩
    · obtain ⟨turn, turnBuilt, hturn⟩ := fullTurnWithin
      obtain ⟨angular, angularBuilt, ha⟩ :=
        hturn.mul (by omega) (hi i rfl i.speed (by simp [Idle.numbers]))
      obtain ⟨elapsed, elapsedBuilt, varying, he⟩ := elapsedHolds (by omega) begun timed
      obtain ⟨angle, wave, angleBuilt, waveBuilt, hw⟩ := waveHolds (by omega) ha varying
        (he.weaken (by omega) fun _ kind => kind.1)
      have height : Sturdy scopes k (.const i.amplitude) :=
        Expr.constantSturdy (by omega) (hi i rfl _ (by simp [Idle.numbers]))
      obtain ⟨swing, swingBuilt, hs⟩ := Expr.mulHolds (by omega) height hw
      obtain ⟨e, built, he⟩ := Expr.addHolds few hy (hs.mono (by omega))
      refine ⟨e, ?_, he⟩
      simp only [floated, if_neg still, turnBuilt, angularBuilt, elapsedBuilt, angleBuilt,
        waveBuilt, swingBuilt, built, okBind, Expr.ofFaultOk]

def Readable (sources : List String) : Prop :=
  ∀ source ∈ sources, ∃ e : Expr Scalar, Expr.parse source = .ok e

structure Placement.Compilable (scopes : Set (Expr.Scope Scalar)) (k : Nat)
    (p : Placement Scalar) : Prop where
  numbers : ∀ v ∈ p.numbers, Within k v
  formulas : ∀ source ∈ p.formulas, scopes = ∅ ∧
    ∀ e, Expr.parse source = .ok e → Expr.Every (Within k) e
  outlasting : scopes.Nonempty → ∀ a ∈ p.animation, a.Outlasting p.start

namespace Placement.Compilable
variable {p : Placement Scalar} (h : p.Compilable scopes k)
include h

theorem begun : Within k p.start := h.numbers p.start (by simp [Placement.numbers])

theorem ended : Within k p.finish := h.numbers p.finish (by simp [Placement.numbers])

theorem animated : ∀ a ∈ p.animation, ∀ v ∈ a.numbers, Within k v :=
  fun _ given v inside => h.numbers v (Placement.animationNumbers given inside)

theorem timed (few : k + 3 ≤ 1000) :
    ∃ t, Timeline.build p.start (some p.finish) p.animation = .ok t ∧ t.Sized (k + 3) :=
  Timeline.buildHolds _ few h.begun (fun _ same => Option.some.inj same ▸ h.ended) h.animated

end Placement.Compilable

section
variable {isCaption : Bool}

theorem centeredHolds {axis size : String} (few : k < 1000) (wide : 2 ≤ k)
    (hc : Sturdy scopes k (.var axis)) (ho : Sturdy scopes k (.var size)) :
    ∃ e, (do (← (Expr.var axis).sub (.var size)).div (.ofInt 2)) = .ok e ∧
      Sturdy scopes (k + 1) e := by
  obtain ⟨space, spaceBuilt, hs⟩ := Expr.subHolds few hc ho
  have kept : space = .binary .sub (.var axis) (.var size) := (Except.ok.inj spaceBuilt).symm
  have two : Stands (small 2) 2 := by exact_mod_cast Scalar.smallStands (n := 2) (by decide)
  obtain ⟨e, built, _, he⟩ := Expr.quotientHolds (d := .int 2) (by omega) hs
    (by simp [kept, Varying]) (fun _ loose => loose) (fun _ => trivial)
    (Expr.smallWithin (n := 2) (by decide) (by omega))
    fun _ => ⟨_, 2, Scalar.denotedSmall (n := 2) (by decide), two, by norm_num⟩
  exact ⟨e, by rw [spaceBuilt, okBind]; exact built, he⟩

theorem restingHolds {c : Option (Coordinate Scalar)} {centered : Except Fault (Expr Scalar)}
    (few : k < 1000) (numbers : ∀ at' ∈ c, ∀ v ∈ at'.numbers, Within k v)
    (formulas : ∀ at' ∈ c, ∀ source ∈ at'.formulas, scopes = ∅ ∧
      ∃ e, Expr.parse source = .ok e ∧ Expr.Every (Within k) e)
    (middle : ∃ e, centered = .ok e ∧ Sturdy scopes m e) (most : k ≤ m) :
    ∃ e, Motion.restingAt (c.map Coordinate.operand) centered = .ok e ∧ Sturdy scopes m e := by
  cases c with
  | none =>
    obtain ⟨e, built, he⟩ := middle
    exact ⟨e, by rw [Option.map_none, Motion.restingAt, built]; rfl, he⟩
  | some coordinate =>
    cases coordinate with
    | number v =>
      have within := numbers _ rfl v (List.mem_singleton_self v)
      exact ⟨.const v, rfl, (Expr.constantSturdy few.le within).mono most⟩
    | formula source =>
      obtain ⟨rfl, e, parsed, constants⟩ := formulas _ rfl source (List.mem_singleton_self source)
      refine ⟨e, ?_, (Expr.Built.ofConstants constants).mono most⟩
      exact congrArg (Except.mapError _) parsed

theorem Serves.mono {s : Symbols} {scope : Expr.Scope Scalar} (serves : Serves s j scope)
    (wider : j ≤ k) : Serves s k scope where
  time := serves.time.mono wider
  dimensions name inside := by
    obtain ⟨v, bound, loose⟩ := serves.dimensions name inside
    exact ⟨v, bound, loose.mono wider⟩

section
variable {p : Placement Scalar}

theorem Placement.Compilable.rests (h : p.Compilable scopes k) (readable : Readable p.formulas)
    (few : k + 3 ≤ 1000) {c : Option (Coordinate Scalar)}
    (given : ∀ at' ∈ c, at' ∈ p.x ∨ at' ∈ p.y) {axis size : String}
    (canvas : axis ∈ (symbolsFor isCaption).dimensions)
    (object : size ∈ (symbolsFor isCaption).dimensions)
    (serves : ∀ scope ∈ scopes, Serves (symbolsFor isCaption) k scope) :
    ∃ e, Motion.restingAt (c.map Coordinate.operand)
        (do (← (Expr.var axis).sub (.var size)).div (.ofInt 2)) = .ok e ∧
      Sturdy scopes (k + 3) e := by
  have side {name : String} (inside : name ∈ (symbolsFor isCaption).dimensions) :
      Sturdy scopes (k + 2) (.var name) :=
    Timeline.dimensionHolds inside fun scope among => (serves scope among).mono (by omega)
  have middle := centeredHolds (k := k + 2) (by omega) (by omega) (side canvas) (side object)
  refine restingHolds (k := k) (by omega) (fun at' chosen v inside => ?_)
    (fun at' chosen source inside => ?_) middle (by omega)
  · exact h.numbers v (Placement.coordinateNumbers (given at' chosen) inside)
  · have among := Placement.coordinateFormulas (given at' chosen) inside
    obtain ⟨still, constants⟩ := h.formulas source among
    obtain ⟨e, parsed⟩ := readable source among
    exact ⟨still, e, parsed, constants e parsed⟩

theorem Placement.Compilable.uncut (h : p.Compilable scopes k) {t : Timeline Scalar}
    (built : Timeline.build p.start (some p.finish) p.animation = .ok t)
    (some : scopes.Nonempty) : t.Outlasting := by
  cases given : p.animation with
  | none =>
    rw [given] at built
    cases built
    exact ⟨by simp, by simp⟩
  | some a =>
    rw [given] at built
    -- The end of the window cuts off what is seen, but moves no phase.
    obtain ⟨_, _, _, uncut, uncutBuilt, same⟩ := Timeline.builtParts built
    obtain ⟨entering, exiting⟩ := (h.outlasting some a given uncut uncutBuilt).1
    rw [same]
    exact ⟨entering, exiting⟩

theorem Motion.ofPlacementHolds (few : k ≤ 300) (h : p.Compilable scopes k)
    (readable : Readable p.formulas)
    (serves : ∀ scope ∈ scopes, Serves (symbolsFor isCaption) k scope) :
    ∃ motion, (ofPlacement p isCaption).outcome = .ok motion ∧
      motion.Holds scopes (2 * k + 12) := by
  obtain ⟨x, (restingX : restingAt _ (symbolsFor isCaption).centeredX = .ok x), hx⟩ :=
    h.rests readable (by omega) (fun _ => .inl) (.head _) (.tail _ (.tail _ (.head _))) serves
  obtain ⟨y, (restingY : restingAt _ (symbolsFor isCaption).centeredY = .ok y), hy⟩ :=
    h.rests readable (by omega) (fun _ => .inr) (.tail _ (.head _))
      (.tail _ (.tail _ (.tail _ (.head _)))) serves
  obtain ⟨t, built, sized⟩ := h.timed (by omega)
  obtain ⟨motion, compiled, hm⟩ := compileHolds (by omega) (by omega) le_rfl sized
    (fun scope inside => (serves scope inside).mono (by omega)) (h.uncut built) hx hy
  have observed : ((Timeline.observed p.start (some p.finish) p.animation).mapError
      (Expr.Error.fault : Fault → Expr.Error Scalar)).outcome = .ok t := by
    rw [Logged.mapErrorOutcome, mapErrorOk, Timeline.observedOutcome]
    exact built
  refine ⟨motion, ?_, hm.enable.mono (by omega), hm.x.mono (by omega), hm.y.mono (by omega),
    fun e inside => (hm.alpha e inside).mono (by omega)⟩
  exact Logged.bindOk.mpr ⟨x, restingX, Logged.bindOk.mpr ⟨y, restingY,
    Logged.bindOk.mpr ⟨t, observed, mapErrorOk.mpr compiled⟩⟩⟩

end

end

end OverlayMotion
