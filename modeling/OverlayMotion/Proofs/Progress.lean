import OverlayMotion.Motion
import OverlayMotion.Proofs.Folding

/-! The values of the trees that motion is built from, over exact rationals: the progress
of a phase, its easing, a value on the way between two, and the choice between phases.
Each is built without fail, and its value is that of the formula it stands for wherever
its parts have one. -/
namespace OverlayMotion

def PowersExact [Reading] : Prop := ∀ (x : Rat) (n : Nat), Reading.pow x n = .ok (x ^ n)

def limited (x : Rat) : Rat := min (max x 0) 1

def Easing.share : Easing → Rat → Rat
  | linear, p => p
  | easeIn, p => p ^ 3
  | easeOut, p => 1 - (1 - p) ^ 3
  | easeInOut, p => 3 * p ^ 2 - 2 * p ^ 3

def Phase.covered (began now : Rat) (p : Phase Rat) : Rat :=
  (p.easing.getD .linear).share (limited ((now - began) / p.duration))

variable [Reading]

namespace Expr

theorem sumValue (a b : Expr Rat) : ∃ e, a.add b = .ok e ∧ ∀ scope u v,
    eval scope a = .ok u → eval scope b = .ok v → eval scope e = .ok (u + v) := by
  obtain ⟨e, built, refines⟩ := addRefines a b
  exact ⟨e, built, fun scope u v hu hv => refines scope _ (evalBinary.mpr ⟨u, v, hu, hv, rfl⟩)⟩

theorem differenceValue (a b : Expr Rat) : ∃ e, a.sub b = .ok e ∧ ∀ scope u v,
    eval scope a = .ok u → eval scope b = .ok v → eval scope e = .ok (u - v) := by
  obtain ⟨e, built, refines⟩ := subRefines a b
  exact ⟨e, built, fun scope u v hu hv => refines scope _ (evalBinary.mpr ⟨u, v, hu, hv, rfl⟩)⟩

theorem productValue (a b : Expr Rat) : ∃ e, a.mul b = .ok e ∧ ∀ scope u v,
    eval scope a = .ok u → eval scope b = .ok v → eval scope e = .ok (u * v) := by
  obtain ⟨e, built, refines⟩ := mulRefines a b
  exact ⟨e, built, fun scope u v hu hv => refines scope _ (evalBinary.mpr ⟨u, v, hu, hv, rfl⟩)⟩

theorem quotientValue (a b : Expr Rat) : ∃ e, a.div b = .ok e ∧ ∀ scope u v,
    eval scope a = .ok u → eval scope b = .ok v → v ≠ 0 → eval scope e = .ok (u / v) := by
  obtain ⟨e, built, refines⟩ := divRefines a b
  refine ⟨e, built, fun scope u v hu hv divisor => refines scope _ ?_⟩
  exact evalBinary.mpr ⟨u, v, hu, hv, mapErrorOk.mpr (exactDiv divisor)⟩

theorem powerValue (exact : PowersExact) (a : Expr Rat) (n : Nat) :
    ∃ e, a.pow (ofInt n) = .ok e ∧ ∀ scope u,
      eval scope a = .ok u → eval scope e = .ok (u ^ n) := by
  have raised : ∀ u, Reading.pow u ((n : Int) : Rat) = .ok (u ^ n) := fun u => by
    simpa using exact u n
  obtain ⟨e, built, refines⟩ := powRefines a (ofInt n) fun x y _ same => by
    cases same
    exact ⟨x ^ n, raised x⟩
  refine ⟨e, built, fun scope u hu => refines scope _ ?_⟩
  refine (evalTwo (f := .pow) rfl (by decide)).mpr ⟨u, (n : Int), hu, rfl, ?_⟩
  simp only [Builtin.apply, power, exactPow, raised]

theorem clampValue {scope : Scope Rat} {a low high : Expr Rat} {u l h : Rat}
    (hu : eval scope a = .ok u) (hl : eval scope low = .ok l) (hh : eval scope high = .ok h) :
    eval scope (a.clamp low high) = .ok (Min.min (Max.max u l) h) := by
  have raised : eval scope (a.max low) = .ok (Max.max u l) :=
    maxRefines a low scope _ ((evalTwo (f := .max) rfl (by decide)).mpr
      ⟨u, l, hu, hl, by simp [Builtin.apply]⟩)
  exact minRefines _ high scope _ ((evalTwo (f := .min) rfl (by decide)).mpr
    ⟨_, h, raised, hh, by simp [Builtin.apply]⟩)

theorem condBelowValue {scope : Scope Rat} {a b yes no : Expr Rat} {u v w : Rat}
    (hu : eval scope a = .ok u) (hv : eval scope b = .ok v)
    (chosen : eval scope (if u < v then yes else no) = .ok w) :
    eval scope ((a.lt b).cond yes no) = .ok w := by
  refine condRefines _ _ _ scope w (evalIf.mpr ⟨if u < v then 1 else 0, ?_, ?_⟩)
  · exact (evalTwo (f := .lt) rfl (by decide)).mpr ⟨u, v, hu, hv, by simp [Builtin.apply]⟩
  · split_ifs at chosen ⊢ <;> simp_all

end Expr

open OverlayMotion.Expr

theorem Easing.curveValue (exact : PowersExact) (easing : Easing) (p : Expr Rat) :
    ∃ e, easing.curve p = .ok e ∧ ∀ scope v,
      eval scope p = .ok v → eval scope e = .ok (easing.share v) := by
  cases easing with
  | linear => exact ⟨p, rfl, fun _ _ value => value⟩
  | easeIn => exact powerValue exact p 3
  | easeOut =>
    obtain ⟨left, leftBuilt, leftValue⟩ := differenceValue (ofInt 1) p
    obtain ⟨cubed, (cubedBuilt : left.pow (ofInt 3) = _), cubedValue⟩ := powerValue exact left 3
    obtain ⟨e, built, value⟩ := differenceValue (ofInt 1) cubed
    refine ⟨e, by simp [curve, leftBuilt, cubedBuilt, built], fun scope v hv => ?_⟩
    have one : eval scope (ofInt 1) = .ok 1 := evalOfInt scope _
    exact value scope _ _ one (cubedValue scope _ (leftValue scope _ _ one hv))
  | easeInOut =>
    obtain ⟨squared, (squaredBuilt : p.pow (ofInt 2) = _), squaredValue⟩ := powerValue exact p 2
    obtain ⟨first, firstBuilt, firstValue⟩ := productValue (ofInt 3) squared
    obtain ⟨cubed, (cubedBuilt : p.pow (ofInt 3) = _), cubedValue⟩ := powerValue exact p 3
    obtain ⟨second, secondBuilt, secondValue⟩ := productValue (ofInt 2) cubed
    obtain ⟨e, built, value⟩ := differenceValue first second
    refine ⟨e, ?_, fun scope v hv => ?_⟩
    · simp [curve, squaredBuilt, firstBuilt, cubedBuilt, secondBuilt, built]
    · have two : eval scope (ofInt 2) = .ok 2 := evalOfInt scope _
      have three : eval scope (ofInt 3) = .ok 3 := evalOfInt scope _
      exact value scope _ _ (firstValue scope _ _ three (squaredValue scope _ hv))
        (secondValue scope _ _ two (cubedValue scope _ hv))

theorem interpolateValue (first share last : Expr Rat) :
    ∃ e, interpolate first share last = .ok e ∧ ∀ scope f s l,
      eval scope first = .ok f → eval scope share = .ok s → eval scope last = .ok l →
      eval scope e = .ok (f + s * (l - f)) := by
  obtain ⟨way, wayBuilt, wayValue⟩ := differenceValue last first
  obtain ⟨part, partBuilt, partValue⟩ := productValue share way
  obtain ⟨e, built, value⟩ := sumValue first part
  refine ⟨e, by simp [interpolate, wayBuilt, partBuilt, built], fun scope f s l hf hs hl => ?_⟩
  exact value scope _ _ hf (partValue scope _ _ hs (wayValue scope _ _ hl hf))

namespace Timeline

theorem progressValue (start : Rat) {duration : Rat} (lasting : 0 < duration) :
    ∃ e, progress start duration = .ok e ∧ ∀ scope t,
      eval scope time = .ok t → eval scope e = .ok (limited ((t - start) / duration)) := by
  obtain ⟨elapsed, elapsedBuilt, elapsedValue⟩ := differenceValue time (.const start)
  obtain ⟨share, shareBuilt, shareValue⟩ := quotientValue elapsed (.const duration)
  refine ⟨share.clamp (ofInt 0) (ofInt 1), ?_, fun scope t now => ?_⟩
  · simp [progress, lasting.not_ge, elapsedBuilt, shareBuilt]
  · have shared := shareValue scope _ _ (elapsedValue scope _ start now rfl) rfl lasting.ne'
    exact clampValue shared (evalOfInt scope _) (evalOfInt scope _)

theorem easedValue (exact : PowersExact) (start : Rat) (p : Phase Rat) (lasting : 0 < p.duration) :
    ∃ e, eased (progress start p.duration) p = .ok e ∧ ∀ scope t,
      eval scope time = .ok t → eval scope e = .ok (p.covered start t) := by
  obtain ⟨passed, passedBuilt, passedValue⟩ := progressValue start lasting
  obtain ⟨e, built, value⟩ := (p.easing.getD .linear).curveValue exact passed
  refine ⟨e, by simp [eased, passedBuilt, built], fun scope t now => ?_⟩
  exact value scope _ (passedValue scope t now)

theorem piecewiseValue (t : Timeline Rat) {scope : Scope Rat} {now r : Rat} {rest : Expr Rat}
    {entering exiting : Option (Expr Rat)} {coming going : Option Rat}
    (hnow : eval scope time = .ok now) (resting : eval scope rest = .ok r)
    (comes : Option.Rel (fun e v => eval scope e = .ok v) entering coming)
    (goes : Option.Rel (fun e v => eval scope e = .ok v) exiting going) :
    eval scope (t.piecewise entering rest exiting) =
      .ok (((if now < t.inEnd then coming else none).or
        (if t.holdEnd ≤ now then going else none)).getD r) := by
  have after : eval scope (t.piecewise none rest exiting) =
      .ok ((if t.holdEnd ≤ now then going else none).getD r) := by
    cases goes with
    | none => simpa [piecewise] using resting
    | some value =>
      refine condBelowValue hnow rfl ?_
      rcases lt_or_ge now t.holdEnd with early | late
      · simpa [early, early.not_ge] using resting
      · simpa [late, late.not_gt] using value
  cases comes with
  | none => simpa using after
  | some value =>
    refine condBelowValue hnow rfl ?_
    rcases lt_or_ge now t.inEnd with early | late
    · simpa [early] using value
    · rw [if_neg late.not_gt, if_neg late.not_gt, Option.none_or]
      exact after

end Timeline

end OverlayMotion
